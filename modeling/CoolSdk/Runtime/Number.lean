import Mathlib.Algebra.Order.Ring.Unbundled.Rat
import Mathlib.Tactic.Linarith

/-!
# JavaScript numbers

The verifiers compare clock readings, parsed dates and amounts with `<` and `>`
on IEEE doubles. A finite double is kept as its exact rational value, beside the
infinities, negative zero and `NaN`. Most arithmetic the code performs is on millisecond
counts, which doubles represent exactly; where a sum can outgrow them, `nearestDouble` rounds it.
-/

namespace CoolSdk

/-- A JavaScript number. -/
inductive JsNumber
  /-- Not a number: every comparison with it is false. -/
  | nan
  | negInfinity
  /-- Negative zero, equal to zero in every comparison. -/
  | negZero
  | finite (value : ℚ)
  | infinity
  deriving DecidableEq, Repr

namespace JsNumber

/-- Position on the extended line, sector first; `NaN` has none. -/
def position? : JsNumber → Option (Int × ℚ)
  | nan => none
  | negInfinity => some (-1, 0)
  | negZero => some (0, 0)
  | finite q => some (0, q)
  | infinity => some (1, 0)

/-- The operator `a < b`. -/
def lt (a b : JsNumber) : Bool :=
  match a.position?, b.position? with
  | some (i, x), some (j, y) => decide (i < j) || (decide (i = j) && decide (x < y))
  | _, _ => false

/-- The operator `a <= b`. -/
def le (a b : JsNumber) : Bool :=
  match a.position?, b.position? with
  | some _, some _ => !lt b a
  | _, _ => false

/-- The operator `a === b`: both zeros are equal, and `NaN` is equal to nothing. -/
def strictEq (a b : JsNumber) : Bool :=
  match a.position?, b.position? with
  | some p, some q => decide (p = q)
  | _, _ => false

/-- An integral number of milliseconds, or any other integer. -/
def ofInt (t : Int) : JsNumber := finite t

/-- The double nearest to a natural number below `2 ^ 1024`, ties to even. -/
def nearestDouble (n : Nat) : Nat :=
  let unit := 2 ^ (n.log2 + 1 - 53)
  let up := unit < 2 * (n % unit) ∨ unit = 2 * (n % unit) ∧ n / unit % 2 = 1
  if up then (n / unit + 1) * unit else n / unit * unit

/-- A natural number that fits the significand is a double. -/
theorem nearestDouble_of_lt {n : Nat} (h : n < 2 ^ 53) : nearestDouble n = n := by
  have hlog : n.log2 + 1 - 53 = 0 := by
    by_cases hn : n = 0
    · rw [hn]
      rfl
    · have := (Nat.log2_lt hn).mpr h
      omega
  simp [nearestDouble, hlog, Nat.mod_one]

/-- The number a date parser returns: the instant, or `NaN`. -/
def ofParsed : Option Int → JsNumber
  | none => nan
  | some t => ofInt t

/-- Unary minus. -/
def neg : JsNumber → JsNumber
  | nan => nan
  | negInfinity => infinity
  | infinity => negInfinity
  | negZero => finite 0
  | finite q => if q = 0 then negZero else finite (-q)

/-- The operator `a + b` on numbers. -/
def add : JsNumber → JsNumber → JsNumber
  | nan, _ | _, nan | infinity, negInfinity | negInfinity, infinity => nan
  | infinity, _ | _, infinity => infinity
  | negInfinity, _ | _, negInfinity => negInfinity
  | negZero, b => b
  | a, negZero => a
  | finite a, finite b => finite (a + b)

/-- The operator `a - b`. -/
def sub (a b : JsNumber) : JsNumber := add a (neg b)

/-- Truthiness: zero, negative zero and `NaN` are falsy. -/
def truthy : JsNumber → Bool
  | nan | negZero => false
  | finite q => decide (q ≠ 0)
  | infinity | negInfinity => true

/-- `Number.isSafeInteger`. -/
def isSafeInteger : JsNumber → Bool
  | negZero => true
  | finite q => decide (q.den = 1) && decide (q.num.natAbs ≤ 2 ^ 53 - 1)
  | _ => false

/-- `Number.isNaN`. -/
def isNaN (a : JsNumber) : Bool := decide (a = nan)

/-- `Math.max(a, b)`: positive zero is the larger of the zeros. -/
def max (a b : JsNumber) : JsNumber :=
  if a.isNaN || b.isNaN then nan
  else if a.lt b || (decide (a = negZero) && decide (b = finite 0)) then b
  else a

/-- `Math.max(...numbers)`. -/
def maxOf (numbers : List JsNumber) : JsNumber := numbers.foldl max negInfinity

/-- The key a `Map` or a `Set` keeps a number under: negative zero is zero. -/
def mapKey : JsNumber → JsNumber
  | negZero => finite 0
  | a => a

@[simp] theorem nan_lt (a : JsNumber) : lt nan a = false := rfl

@[simp] theorem lt_nan (a : JsNumber) : lt a nan = false := by cases a <;> rfl

@[simp] theorem lt_ofInt (a b : Int) : lt (ofInt a) (ofInt b) = decide (a < b) := by
  simp [lt, ofInt, position?]

@[simp] theorem ofParsed_none : ofParsed none = nan := rfl

@[simp] theorem ofParsed_some (t : Int) : ofParsed (some t) = ofInt t := rfl

@[simp] theorem neg_ofInt (a : Int) (h : a ≠ 0) : neg (ofInt a) = ofInt (-a) := by
  simp [neg, ofInt, h]

/-- Subtracting integers is exact. -/
theorem lt_sub_ofInt (a b c : Int) : lt (ofInt c) (sub (ofInt a) (ofInt b)) = decide (c < a - b) := by
  by_cases hb : b = 0
  · subst hb
    simp [sub, neg, ofInt, add, lt, position?]
  · rw [sub, neg_ofInt b hb]
    have h : add (ofInt a) (ofInt (-b)) = ofInt (a - b) := by
      simp [add, ofInt, sub_eq_add_neg]
    rw [h, lt_ofInt]

/-- A number that is not `NaN` occupies a position. -/
theorem position?_isSome {a : JsNumber} (h : a ≠ nan) : ∃ p, a.position? = some p := by
  cases a <;> simp_all [position?]

/-- Off `NaN`, refusing `b < a` is accepting `a ≤ b`. -/
theorem le_of_not_lt {a b : JsNumber} (ha : a ≠ nan) (hb : b ≠ nan) (h : lt b a = false) :
    le a b = true := by
  obtain ⟨p, hp⟩ := position?_isSome ha
  obtain ⟨q, hq⟩ := position?_isSome hb
  simp [le, hp, hq, h]

/-- An accepted `a ≤ b` compares two real quantities. -/
theorem ne_nan_of_le {a b : JsNumber} (h : le a b = true) : a ≠ nan ∧ b ≠ nan := by
  cases a <;> cases b <;> simp_all [le, position?]

/-- An accepted `a ≤ b` refuses `b < a`. -/
theorem not_lt_of_le {a b : JsNumber} (h : le a b = true) : lt b a = false := by
  obtain ⟨ha, hb⟩ := ne_nan_of_le h
  obtain ⟨p, hp⟩ := position?_isSome ha
  obtain ⟨q, hq⟩ := position?_isSome hb
  simpa [le, hp, hq] using h

/-- The order on real quantities is transitive. -/
theorem le_trans {a b c : JsNumber} (hab : le a b = true) (hbc : le b c = true) :
    le a c = true := by
  obtain ⟨ha, hb⟩ := ne_nan_of_le hab
  have hc := (ne_nan_of_le hbc).2
  have hba := not_lt_of_le hab
  have hcb := not_lt_of_le hbc
  apply le_of_not_lt ha hc
  obtain ⟨⟨i, x⟩, hx⟩ := position?_isSome ha
  obtain ⟨⟨j, y⟩, hy⟩ := position?_isSome hb
  obtain ⟨⟨k, z⟩, hz⟩ := position?_isSome hc
  simp only [lt, hx, hy, hz, Bool.or_eq_false_iff, decide_eq_false_iff_not,
    Bool.and_eq_false_iff, not_lt] at hba hcb ⊢
  refine ⟨by omega, ?_⟩
  by_cases hik : k = i
  · right
    have hjk : k = j := by omega
    have hji : j = i := by omega
    exact (hba.2.resolve_left (not_not_intro hji)).trans (hcb.2.resolve_left (not_not_intro hjk))
  · exact Or.inl hik

/-- Exceeding a quantity is exceeding everything below it. -/
theorem lt_of_lt_of_le {a b c : JsNumber} (hab : lt a b = true) (hbc : le b c = true) :
    lt a c = true := by
  obtain ⟨hb, hc⟩ := ne_nan_of_le hbc
  have ha : a ≠ nan := by
    rintro rfl
    cases hab
  by_contra h
  rw [Bool.not_eq_true] at h
  have hba := le_trans hbc (le_of_not_lt hc ha h)
  rw [not_lt_of_le hba] at hab
  cases hab

/-- What a quantity exceeds is not reached from anything above it. -/
theorem lt_of_le_of_lt {a b c : JsNumber} (hab : le a b = true) (hbc : lt b c = true) :
    lt a c = true := by
  obtain ⟨ha, _⟩ := ne_nan_of_le hab
  have hc : c ≠ nan := by
    rintro rfl
    rw [lt_nan] at hbc
    cases hbc
  by_contra h
  rw [Bool.not_eq_true] at h
  have hcb := le_trans (le_of_not_lt hc ha h) hab
  rw [not_lt_of_le hcb] at hbc
  cases hbc

/-- Between integers the order is the integer order. -/
@[simp] theorem le_ofInt (a b : Int) : le (ofInt a) (ofInt b) = decide (a ≤ b) := by
  have h : le (ofInt a) (ofInt b) = !lt (ofInt b) (ofInt a) := rfl
  rw [h, lt_ofInt]
  by_cases hab : a ≤ b
  · simp [hab]
  · simp [not_le.mp hab]

theorem sub_nan (a : JsNumber) : a.sub nan = nan := by cases a <;> rfl

theorem nan_sub (a : JsNumber) : nan.sub a = nan := by cases a <;> rfl

theorem nan_le (a : JsNumber) : nan.le a = false := by cases a <;> rfl

theorem le_nan (a : JsNumber) : a.le nan = false := by cases a <;> rfl

theorem sub_ofInt_ne_nan {a : JsNumber} (ha : a ≠ nan) (i : Int) : a.sub (ofInt i) ≠ nan := by
  by_cases hi : i = 0
  · subst hi
    cases a <;> simp_all [sub, neg, ofInt, add]
  · rw [sub, neg_ofInt i hi]
    cases a <;> simp_all [ofInt, add]

/-- A falsy number is `NaN` or stands at zero. -/
theorem position?_of_falsy {z : JsNumber} (hz : z ≠ nan) (h : z.truthy = false) :
    z.position? = some (0, 0) := by
  cases z with
  | nan => exact (hz rfl).elim
  | negZero => rfl
  | finite q =>
    rw [truthy, decide_eq_false_iff_not, not_not] at h
    rw [h]
    rfl
  | negInfinity | infinity => cases h

/-- A difference is at most zero exactly where the first number is at most the second. -/
theorem sub_le_of_falsy {a z : JsNumber} (hz : z ≠ nan) (hfalsy : z.truthy = false)
    (i : Int) : (a.sub (ofInt i)).le z = a.le (ofInt i) := by
  have hzero : z.position? = (ofInt 0).position? := position?_of_falsy hz hfalsy
  have hle : (a.sub (ofInt i)).le z = (a.sub (ofInt i)).le (ofInt 0) := by
    simp only [le, lt, hzero]
  rw [hle]
  by_cases hi : i = 0
  · subst hi
    cases a <;> simp [sub, neg, ofInt, add, le, lt, position?]
  · rw [sub, neg_ofInt i hi]
    cases a <;> simp [ofInt, add, le, lt, position?]

theorem le_of_lt {a b : JsNumber} (h : a.lt b = true) : a.le b = true := by
  cases a <;> cases b <;> simp_all [lt, le, position?]
  all_goals exact h.le

theorem lt_self (a : JsNumber) : a.lt a = false := by
  cases a <;> simp [lt, position?]

private theorem add_not_lt {b s : JsNumber} (hs : (ofInt 0).le s = true) :
    (b.add s).lt b = false := by
  cases s with
  | nan | negInfinity => cases hs
  | infinity | negZero => cases b <;> simp [add, lt, position?]
  | finite q =>
    have hq : 0 ≤ q := by simpa [le, lt, ofInt, position?] using hs
    cases b <;> simp [add, lt, position?, hq]

/-- Adding a skew that is not negative does not take a time below what it was not below. -/
theorem add_lt_of_le {a b s : JsNumber} (h : a.le b = true) (hs : (ofInt 0).le s = true) :
    (b.add s).lt a = false := by
  by_cases hnan : b.add s = nan
  · rw [hnan, nan_lt]
  · apply not_lt_of_le
    exact le_trans h (le_of_not_lt (ne_nan_of_le h).2 hnan (add_not_lt hs))

theorem max_eq_nan_iff (a b : JsNumber) : a.max b = nan ↔ a = nan ∨ b = nan := by
  simp only [max, isNaN, Bool.or_eq_true, decide_eq_true_eq, Bool.and_eq_true]
  split_ifs with h h'
  · simp only [h]
  · rw [not_or] at h
    simp only [h.1, h.2, or_self]
  · rw [not_or] at h
    simp only [h.1, h.2, or_self]

/-- Off `NaN`, reaching the larger of two numbers is reaching one of them. -/
theorem le_max_iff {a b : JsNumber} (ha : a ≠ nan) (hb : b ≠ nan) (m : Int) :
    (ofInt m).le (a.max b) = true ↔ (ofInt m).le a = true ∨ (ofInt m).le b = true := by
  simp only [max, isNaN, Bool.or_eq_true, decide_eq_true_eq, Bool.and_eq_true]
  rw [if_neg (not_or.mpr ⟨ha, hb⟩)]
  by_cases hab : a.lt b = true ∨ a = negZero ∧ b = finite 0
  · rw [if_pos hab]
    have hle : a.le b = true := by
      rcases hab with hlt | ⟨rfl, rfl⟩
      · exact le_of_lt hlt
      · rfl
    exact ⟨.inr, fun h => h.elim (fun ha => le_trans ha hle) id⟩
  · rw [if_neg hab]
    rw [not_or, Bool.not_eq_true] at hab
    exact ⟨.inl, fun h => h.elim id fun hb' => le_trans hb' (le_of_not_lt hb ha hab.1)⟩

end JsNumber

end CoolSdk
