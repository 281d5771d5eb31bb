import Mathlib.Data.List.Basic

/-!
# Single flight

A value that is made once, on demand, by an attempt that takes time and may fail. Whoever joins
while an attempt runs waits for that one; the next attempt begins only behind a failed one.
However joins and attempts interleave, at most one value is ever made, and all get that one.
-/

namespace CoolSdk

universe u v

/-- An attempt, whose result is known before it is taken note of. -/
inductive FlightAttempt (ε : Type u) (α : Type v)
  | pending
  | settled (result : Except ε α)
  | handled (result : Except ε α)

/-- The attempt whose failure has been taken note of. -/
def FlightAttempt.Failed {ε : Type u} {α : Type v} (a : FlightAttempt ε α) : Prop :=
  ∃ e, a = .handled (.error e)

structure SingleFlight (ε : Type u) (α : Type v) where
  value : Option α := none
  /-- The attempt that joining waits for. -/
  current : Option Nat := none
  attempts : List (FlightAttempt ε α) := []

/-- What joining gives: the value, or an attempt to wait for. -/
inductive Ticket (α : Type v)
  | value (a : α)
  | attempt (k : Nat)

namespace SingleFlight

variable {ε : Type u} {α : Type v}

/-- Join the attempt that runs; where there is none, and no value, begin one. -/
def join (s : SingleFlight ε α) : SingleFlight ε α × Ticket α :=
  match s.value, s.current with
  | some a, _ => (s, .value a)
  | none, some k => (s, .attempt k)
  | none, none =>
    ({ s with current := some s.attempts.length, attempts := s.attempts ++ [.pending] },
      .attempt s.attempts.length)

/-- The result of a running attempt becomes known. -/
def settle (s : SingleFlight ε α) (k : Nat) (result : Except ε α) : SingleFlight ε α :=
  match s.attempts[k]? with
  | some .pending => { s with attempts := s.attempts.set k (.settled result) }
  | _ => s

/-- A known result is taken note of: a value is kept, and a failure has the next one try again. -/
def handle (s : SingleFlight ε α) (k : Nat) : SingleFlight ε α :=
  match s.attempts[k]? with
  | some (.settled (.ok a)) =>
    { s with value := some a, attempts := s.attempts.set k (.handled (.ok a)) }
  | some (.settled (.error e)) =>
    { s with current := none, attempts := s.attempts.set k (.handled (.error e)) }
  | _ => s

/-- What a ticket is worth, once it is known. -/
def redeem (s : SingleFlight ε α) : Ticket α → Option (Except ε α)
  | .value a => some (.ok a)
  | .attempt k =>
    match s.attempts[k]? with
    | some (.handled result) => some result
    | _ => none

/-- Every attempt but the last has failed; the value is the last one's. -/
structure Sound (s : SingleFlight ε α) : Prop where
  failed : ∀ (k : Nat) (a : FlightAttempt ε α), s.attempts[k]? = some a →
    k + 1 < s.attempts.length → a.Failed
  value : ∀ a : α, s.value = some a ↔ ∃ k : Nat, s.attempts[k]? = some (.handled (.ok a))
  last : ∀ k : Nat, s.current = some k → k + 1 = s.attempts.length ∧
    ∀ a : FlightAttempt ε α, s.attempts[k]? = some a → ¬a.Failed
  idle : s.current = none → ∀ (k : Nat) (a : FlightAttempt ε α), s.attempts[k]? = some a → a.Failed

/-- A ticket that was given out. -/
def Holds (s : SingleFlight ε α) : Ticket α → Prop
  | .value a => s.value = some a
  | .attempt k => k < s.attempts.length

variable {s : SingleFlight ε α} {k : Nat}

theorem sound_empty : ({} : SingleFlight ε α).Sound where
  failed k a h := by simp at h
  value a := by simp
  last k h := by cases h
  idle _ k a h := by simp at h

/-- An attempt that has not failed is the current one, and the last. -/
theorem Sound.current_of_not_failed (h : s.Sound) {a : FlightAttempt ε α}
    (hk : s.attempts[k]? = some a) (ha : ¬a.Failed) :
    s.current = some k ∧ k + 1 = s.attempts.length := by
  cases hcurrent : s.current with
  | none => exact (ha (h.idle hcurrent k a hk)).elim
  | some j =>
    obtain ⟨hj, -⟩ := h.last j hcurrent
    have hlt : k < s.attempts.length := (List.getElem?_eq_some_iff.mp hk).1
    have hlast : ¬k + 1 < s.attempts.length := fun hlt => ha (h.failed k a hk hlt)
    obtain rfl : k = j := by omega
    exact ⟨rfl, hj⟩

/-- Where there is a value, the current attempt is the one that made it. -/
theorem Sound.value_of_current (h : s.Sound) {a : α} (hvalue : s.value = some a)
    {b : FlightAttempt ε α}
    (hk : s.attempts[k]? = some b) (hb : ¬b.Failed) : b = .handled (.ok a) := by
  obtain ⟨j, hj⟩ := (h.value a).mp hvalue
  have hnot : ¬(FlightAttempt.handled (.ok a) : FlightAttempt ε α).Failed := by
    rintro ⟨e, he⟩
    cases he
  have hlast := (h.current_of_not_failed hj hnot).2
  have hlast' := (h.current_of_not_failed hk hb).2
  obtain rfl : j = k := by omega
  rw [hj] at hk
  exact (Option.some.inj hk).symm

/-- Two attempts that have not failed are one. -/
theorem Sound.eq_of_not_failed (h : s.Sound) {j : Nat} {a b : FlightAttempt ε α}
    (hj : s.attempts[j]? = some a) (ha : ¬a.Failed) (hk : s.attempts[k]? = some b)
    (hb : ¬b.Failed) : j = k := by
  have hlast := (h.current_of_not_failed hj ha).2
  have hlast' := (h.current_of_not_failed hk hb).2
  omega

theorem not_failed_pending : ¬(FlightAttempt.pending : FlightAttempt ε α).Failed := by
  rintro ⟨e, he⟩
  cases he

theorem not_failed_settled {r : Except ε α} : ¬(FlightAttempt.settled r).Failed := by
  rintro ⟨e, he⟩
  cases he

theorem not_failed_value {a : α} : ¬(FlightAttempt.handled (.ok a) : FlightAttempt ε α).Failed := by
  rintro ⟨e, he⟩
  cases he

/-- Joining keeps what holds, and the ticket is one that was given out. -/
theorem Sound.join (h : s.Sound) : s.join.1.Sound ∧ s.join.1.Holds s.join.2 := by
  rw [SingleFlight.join]
  split
  · rename_i a hvalue
    exact ⟨h, hvalue⟩
  · rename_i k hvalue hcurrent
    have hlast := (h.last k hcurrent).1
    exact ⟨h, show k < s.attempts.length by omega⟩
  · rename_i hvalue hcurrent
    refine ⟨⟨?_, ?_, ?_, ?_⟩, by simp [Holds]⟩
    · intro k a hk hlt
      simp only [List.length_append, List.length_singleton] at hlt
      rw [List.getElem?_append_left (by omega)] at hk
      exact h.idle hcurrent k a hk
    · intro a
      constructor
      · intro ha
        rw [hvalue] at ha
        cases ha
      · rintro ⟨k, hk⟩
        rcases Nat.lt_or_ge k s.attempts.length with hlt | hge
        · rw [List.getElem?_append_left hlt] at hk
          exact (not_failed_value (h.idle hcurrent k _ hk)).elim
        · rw [List.getElem?_append_right hge] at hk
          have hpending := List.mem_of_getElem? hk
          rw [List.mem_singleton] at hpending
          cases hpending
    · intro k hk
      cases hk
      refine ⟨by simp, fun a ha => ?_⟩
      rw [List.getElem?_append_right (Nat.le_refl _), Nat.sub_self] at ha
      cases ha
      exact not_failed_pending
    · intro hnone
      cases hnone

/-- A result that becomes known keeps what holds. -/
theorem Sound.settle (h : s.Sound) (k : Nat) (result : Except ε α) : (s.settle k result).Sound := by
  rw [SingleFlight.settle]
  split
  swap
  · exact h
  · rename_i hk
    obtain ⟨hcurrent, hlast⟩ := h.current_of_not_failed hk not_failed_pending
    refine ⟨?_, ?_, ?_, ?_⟩
    · intro j a hj hlt
      rw [List.length_set] at hlt
      rw [List.getElem?_set_ne (by omega)] at hj
      exact h.failed j a hj hlt
    · intro a
      rw [h.value a]
      constructor
      · rintro ⟨j, hj⟩
        have hne : k ≠ j := by
          rintro rfl
          rw [hk] at hj
          cases hj
        exact ⟨j, by rw [List.getElem?_set_ne hne]; exact hj⟩
      · rintro ⟨j, hj⟩
        rw [List.getElem?_set] at hj
        split_ifs at hj with hsame hin
        · cases hj
        · exact ⟨j, hj⟩
    · intro j hj
      rw [List.length_set]
      obtain ⟨hj', hnot⟩ := h.last j hj
      refine ⟨hj', fun a ha => ?_⟩
      rw [List.getElem?_set] at ha
      split_ifs at ha with hsame hin
      · cases ha
        exact not_failed_settled
      · exact hnot a ha
    · intro hnone
      rw [hcurrent] at hnone
      cases hnone

/-- Taking note of a result keeps what holds. -/
theorem Sound.handle (h : s.Sound) (k : Nat) : (s.handle k).Sound := by
  rw [SingleFlight.handle]
  split
  · rename_i a hk
    obtain ⟨hcurrent, hlast⟩ := h.current_of_not_failed hk not_failed_settled
    have hin : k < s.attempts.length := by omega
    refine ⟨?_, ?_, ?_, ?_⟩
    · intro j b hj hlt
      rw [List.length_set] at hlt
      rw [List.getElem?_set_ne (by omega)] at hj
      exact h.failed j b hj hlt
    · intro b
      constructor
      · rintro hb
        cases hb
        exact ⟨k, by simp [hin]⟩
      · rintro ⟨j, hj⟩
        rw [List.getElem?_set] at hj
        split_ifs at hj with hsame
        · cases hj
          rfl
        · exact (hsame (h.eq_of_not_failed hk not_failed_settled hj not_failed_value)).elim
    · intro j hj
      rw [List.length_set]
      obtain ⟨hj', hnot⟩ := h.last j hj
      refine ⟨hj', fun b hb => ?_⟩
      rw [List.getElem?_set] at hb
      split_ifs at hb with hsame
      · cases hb
        exact not_failed_value
      · exact hnot b hb
    · intro hnone
      rw [hcurrent] at hnone
      cases hnone
  · rename_i e hk
    obtain ⟨hcurrent, hlast⟩ := h.current_of_not_failed hk not_failed_settled
    have hin : k < s.attempts.length := by omega
    have hall : ∀ (j : Nat) (b : FlightAttempt ε α),
        (s.attempts.set k (.handled (.error e)))[j]? = some b → b.Failed := by
      intro j b hj
      rw [List.getElem?_set] at hj
      split_ifs at hj with hsame
      · cases hj
        exact ⟨e, rfl⟩
      · have hlt : j < s.attempts.length := (List.getElem?_eq_some_iff.mp hj).1
        exact h.failed j b hj (by omega)
    refine ⟨fun j b hj _ => hall j b hj, fun a => ?_, fun j hj => (by cases hj), fun _ => hall⟩
    constructor
    · intro ha
      have hsettled := h.value_of_current ha hk not_failed_settled
      cases hsettled
    · rintro ⟨j, hj⟩
      exact (not_failed_value (hall j _ hj)).elim
  · exact h

/-- A value that is there stays. -/
theorem join_of_value {a : α} (h : s.value = some a) : s.join = (s, .value a) := by
  rw [SingleFlight.join, h]

theorem value_settle (s : SingleFlight ε α) (k : Nat) (result : Except ε α) :
    (s.settle k result).value = s.value := by
  rw [settle]
  split <;> rfl

theorem Sound.value_handle (h : s.Sound) {a : α} (hvalue : s.value = some a) (k : Nat) :
    (s.handle k).value = some a := by
  rw [SingleFlight.handle]
  split
  · rename_i b hk
    cases h.value_of_current hvalue hk not_failed_settled
  · exact hvalue
  · exact hvalue

/-- A ticket that was given out is worth the one value, or the failure of its attempt. -/
theorem Sound.redeem_ok (h : s.Sound) {t : Ticket α} (ht : s.Holds t) {a : α}
    (hredeem : s.redeem t = some (.ok a)) : s.value = some a := by
  cases t with
  | value b =>
    cases hredeem
    exact ht
  | attempt k =>
    rw [redeem] at hredeem
    split at hredeem
    · rename_i result hk
      cases hredeem
      exact (h.value a).mpr ⟨k, hk⟩
    · cases hredeem

/-- A ticket that was given out stays one. -/
theorem Holds.join {t : Ticket α} (ht : s.Holds t) : s.join.1.Holds t := by
  rw [SingleFlight.join]
  split
  · exact ht
  · exact ht
  · cases t with
    | value a => exact ht
    | attempt k => exact Nat.lt_of_lt_of_le ht (by simp)

theorem Holds.settle {t : Ticket α} (ht : s.Holds t) (k : Nat) (result : Except ε α) :
    (s.settle k result).Holds t := by
  rw [SingleFlight.settle]
  split
  · cases t with
    | value a => exact ht
    | attempt j => exact Nat.lt_of_lt_of_eq ht List.length_set.symm
  · exact ht

theorem Holds.handle (h : s.Sound) {t : Ticket α} (ht : s.Holds t) (k : Nat) :
    (s.handle k).Holds t := by
  cases t with
  | value a => exact h.value_handle ht k
  | attempt j =>
    change j < (s.handle k).attempts.length
    rw [SingleFlight.handle]
    split
    · exact Nat.lt_of_lt_of_eq ht List.length_set.symm
    · exact Nat.lt_of_lt_of_eq ht List.length_set.symm
    · exact ht

/-- Every result that is known has the property. -/
def Yields (P : Except ε α → Prop) (s : SingleFlight ε α) : Prop :=
  ∀ (k : Nat) (r : Except ε α),
    s.attempts[k]? = some (.settled r) ∨ s.attempts[k]? = some (.handled r) → P r

variable {P : Except ε α → Prop}

theorem yields_empty : Yields P ({} : SingleFlight ε α) := by
  intro k r h
  simp at h

theorem Yields.join (h : s.Yields P) : s.join.1.Yields P := by
  rw [SingleFlight.join]
  split
  · exact h
  · exact h
  · intro k r hk
    rw [List.getElem?_append] at hk
    split_ifs at hk
    · exact h k r hk
    · rcases hk with hk | hk
      · have hmem := List.mem_of_getElem? hk
        rw [List.mem_singleton] at hmem
        cases hmem
      · have hmem := List.mem_of_getElem? hk
        rw [List.mem_singleton] at hmem
        cases hmem

theorem Yields.settle (h : s.Yields P) (k : Nat) {result : Except ε α} (hresult : P result) :
    (s.settle k result).Yields P := by
  rw [SingleFlight.settle]
  split
  swap
  · exact h
  · intro j r hj
    rw [List.getElem?_set] at hj
    split_ifs at hj
    · rcases hj with hj | hj
      · cases hj
        exact hresult
      · cases hj
    · simp at hj
    · exact h j r hj

theorem Yields.handle (h : s.Yields P) (k : Nat) : (s.handle k).Yields P := by
  have hset : ∀ result, s.attempts[k]? = some (.settled result) → ∀ (j : Nat) (r : Except ε α),
      (s.attempts.set k (.handled result))[j]? = some (.settled r) ∨
        (s.attempts.set k (.handled result))[j]? = some (.handled r) → P r := by
    intro result hk j r hj
    rw [List.getElem?_set] at hj
    split_ifs at hj
    · rcases hj with hj | hj
      · cases hj
      · cases hj
        exact h k _ (.inl hk)
    · simp at hj
    · exact h j r hj
  rw [SingleFlight.handle]
  split
  · rename_i a hk
    exact hset _ hk
  · rename_i e hk
    exact hset _ hk
  · exact h

/-- The value is a result that became known. -/
theorem Yields.value (h : s.Yields P) (hs : s.Sound) {a : α} (ha : s.value = some a) :
    P (.ok a) := by
  obtain ⟨k, hk⟩ := (hs.value a).mp ha
  exact h k _ (.inr hk)

/-- Beginning an attempt is what joining alone does. -/
theorem length_settle (s : SingleFlight ε α) (k : Nat) (result : Except ε α) :
    (s.settle k result).attempts.length = s.attempts.length := by
  rw [settle]
  split
  · exact List.length_set
  · rfl

theorem length_handle (s : SingleFlight ε α) (k : Nat) :
    (s.handle k).attempts.length = s.attempts.length := by
  rw [handle]
  split
  · exact List.length_set
  · exact List.length_set
  · rfl

end SingleFlight

end CoolSdk
