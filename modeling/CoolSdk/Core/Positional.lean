import Mathlib.Data.Nat.Digits.Lemmas

/-!
# Positional notation

The digits of a number with the most significant first, as writers produce them by taking
remainders, and the number that a reader accumulates from digits. A digit string is the one that
is written exactly where it starts with no zero.
-/

namespace CoolSdk.Positional

/-- The digits of a number, none for zero. -/
def digits (base n : Nat) : List Nat := (Nat.digits base n).reverse

/-- The number that digits accumulate to. -/
def value (base : Nat) (ds : List Nat) : Nat := ds.foldl (fun v d => v * base + d) 0

variable {base n k : Nat} {ds ds' : List Nat}

theorem value_eq_ofDigits (base : Nat) (ds : List Nat) :
    value base ds = Nat.ofDigits base ds.reverse := by
  rw [value, Nat.ofDigits_eq_foldr, List.foldr_reverse]
  simp only [Nat.cast_id, Nat.mul_comm base, Nat.add_comm _ (_ * base)]

@[simp] theorem value_nil (base : Nat) : value base [] = 0 := rfl

theorem value_append (base : Nat) (ds ds' : List Nat) :
    value base (ds ++ ds') = value base ds * base ^ ds'.length + value base ds' := by
  rw [value_eq_ofDigits, value_eq_ofDigits, value_eq_ofDigits, List.reverse_append,
    Nat.ofDigits_append, List.length_reverse, Nat.mul_comm, Nat.add_comm]

/-- The digits of a number accumulate to it. -/
@[simp] theorem value_digits (base n : Nat) : value base (digits base n) = n := by
  rw [value_eq_ofDigits, digits, List.reverse_reverse, Nat.ofDigits_digits]

/-- Digits that start with no zero are the digits of what they accumulate to. -/
theorem digits_value (hbase : 1 < base) (hlt : ∀ d ∈ ds, d < base) (hhead : ds.head? ≠ some 0) :
    digits base (value base ds) = ds := by
  rw [digits, value_eq_ofDigits, Nat.digits_ofDigits base hbase, List.reverse_reverse]
  · intro d hd
    exact hlt d (List.mem_reverse.mp hd)
  · intro hne hlast
    apply hhead
    rw [← List.reverse_reverse ds, List.head?_reverse, List.getLast?_eq_some_getLast hne, hlast]

theorem digits_lt (hbase : 1 < base) {d : Nat} (hd : d ∈ digits base n) : d < base :=
  Nat.digits_lt_base hbase (List.mem_reverse.mp hd)

theorem head?_digits_ne_zero (base n : Nat) : (digits base n).head? ≠ some 0 := by
  rw [digits, List.head?_reverse]
  by_cases hn : n = 0
  · rw [hn, Nat.digits_zero]
    nofun
  · rw [List.getLast?_eq_some_getLast (Nat.digits_ne_nil_iff_ne_zero.mpr hn)]
    intro h
    exact Nat.getLast_digit_ne_zero base hn (Option.some.inj h)

theorem length_digits_le_iff (hbase : 1 < base) : (digits base n).length ≤ k ↔ n < base ^ k := by
  rw [digits, List.length_reverse, Nat.digits_length_le_iff hbase]

theorem digits_ne_nil_iff : digits base n ≠ [] ↔ n ≠ 0 := by
  rw [digits, ne_eq, List.reverse_eq_nil_iff]
  exact Nat.digits_ne_nil_iff_ne_zero

theorem digits_zero (base : Nat) : digits base 0 = [] := by
  rw [digits, Nat.digits_zero]
  rfl

theorem value_lt (hbase : 1 < base) (hlt : ∀ d ∈ ds, d < base) :
    value base ds < base ^ ds.length := by
  rw [value_eq_ofDigits, ← List.length_reverse]
  exact Nat.ofDigits_lt_base_pow_length hbase fun d hd => hlt d (List.mem_reverse.mp hd)

theorem value_cons (base d : Nat) (ds : List Nat) :
    value base (d :: ds) = d * base ^ ds.length + value base ds := by
  have happend := value_append base [d] ds
  rwa [value_eq_ofDigits base [d], List.reverse_singleton, Nat.ofDigits_singleton] at happend

/-- Digit strings of one length are ordered as their numbers are. -/
theorem lt_iff_value_lt (hbase : 1 < base) (hlen : ds.length = ds'.length)
    (hlt : ∀ d ∈ ds, d < base) (hlt' : ∀ d ∈ ds', d < base) :
    ds < ds' ↔ value base ds < value base ds' := by
  induction ds generalizing ds' with
  | nil =>
    cases ds' with
    | nil => exact iff_of_false (lt_irrefl _) (lt_irrefl _)
    | cons d' ds' => cases hlen
  | cons d ds ih =>
    cases ds' with
    | nil => cases hlen
    | cons d' ds' =>
      rw [List.length_cons, List.length_cons, Nat.add_right_cancel_iff] at hlen
      rw [List.forall_mem_cons] at hlt hlt'
      have hvalue := value_lt hbase hlt.2
      have hvalue' := value_lt hbase hlt'.2
      rw [← hlen] at hvalue'
      rw [List.cons_lt_cons_iff, ih hlen hlt.2 hlt'.2, value_cons, value_cons, ← hlen]
      rcases lt_trichotomy d d' with h | rfl | h
      · have hmul := Nat.mul_le_mul_right (base ^ ds.length) (Nat.succ_le_of_lt h)
        rw [Nat.succ_mul] at hmul
        exact iff_of_true (.inl h) (by omega)
      · rw [Nat.add_lt_add_iff_left]
        exact ⟨fun h => h.resolve_left (lt_irrefl d) |>.2, fun h => .inr ⟨rfl, h⟩⟩
      · have hmul := Nat.mul_le_mul_right (base ^ ds.length) (Nat.succ_le_of_lt h)
        rw [Nat.succ_mul] at hmul
        refine iff_of_false ?_ (by omega)
        rintro (h' | ⟨rfl, _⟩)
        · exact absurd h' h.not_gt
        · exact lt_irrefl _ h

end CoolSdk.Positional
