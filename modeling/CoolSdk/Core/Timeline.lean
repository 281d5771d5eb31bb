import Mathlib.Data.List.TakeWhile
import Mathlib.Order.Basic

/-!
# Timelines

A state is replayed from a list of events up to the first event that lies later than
the moment asked about. On a list in time order that cut loses nothing: every event up
to the moment is replayed. A property no event can undo therefore holds from the first
event that establishes it.
-/

namespace CoolSdk

universe u v

variable {σ : Type u} {ε : Type v}

/-- Replay events up to the first one that is later. -/
def replayUntil (later : ε → Bool) (step : σ → ε → σ) : σ → List ε → σ
  | s, [] => s
  | s, e :: es => if later e then s else replayUntil later step (step s e) es

/-- The events replayed are the longest run of events that are not later. -/
theorem replayUntil_eq_foldl (later : ε → Bool) (step : σ → ε → σ) (s : σ) (es : List ε) :
    replayUntil later step s es = (es.takeWhile fun e => !later e).foldl step s := by
  induction es generalizing s with
  | nil => rfl
  | cons e es ih =>
    by_cases he : later e = true
    · simp only [replayUntil, he, if_true, Bool.not_true, Bool.false_eq_true, not_false_eq_true,
        List.takeWhile_cons_of_neg, List.foldl_nil]
    · rw [Bool.not_eq_true] at he
      simp only [replayUntil, he, Bool.false_eq_true, if_false, Bool.not_false,
        List.takeWhile_cons_of_pos, List.foldl_cons, ih]

/-- The events up to a moment are those up to an earlier one and those between the two. -/
theorem takeWhile_eq_append {p q : ε → Bool} (h : ∀ e, p e = true → q e = true) (es : List ε) :
    es.takeWhile q = es.takeWhile p ++ (es.dropWhile p).takeWhile q := by
  have hsplit := congrArg (List.takeWhile q) (List.takeWhile_append_dropWhile (p := p) (l := es))
  rw [← hsplit, List.takeWhile_append_of_pos]
  intro e he
  exact h e (List.mem_takeWhile_imp he)

/-- On a timeline in order, the events up to a moment are all that are not later. -/
theorem takeWhile_eq_filter {time : ε → Int} {later : ε → Bool} {es : List ε}
    (hsorted : es.Pairwise fun a b => time a ≤ time b)
    (hlater : ∀ a ∈ es, ∀ b ∈ es, time a ≤ time b → later a = true → later b = true) :
    (es.takeWhile fun e => !later e) = es.filter fun e => !later e := by
  induction es with
  | nil => rfl
  | cons a es ih =>
    obtain ⟨hhead, htail⟩ := List.pairwise_cons.mp hsorted
    by_cases ha : later a = true
    · rw [List.takeWhile_cons_of_neg (by simp [ha]), List.filter_cons_of_neg (by simp [ha]),
        eq_comm, List.filter_eq_nil_iff]
      intro b hb
      have hb' := hlater a List.mem_cons_self b (List.mem_cons_of_mem a hb) (hhead b hb) ha
      simp [hb']
    · rw [List.takeWhile_cons_of_pos (by simp [ha]), List.filter_cons_of_pos (by simp [ha]),
        ih htail fun b hb c hc => hlater b (List.mem_cons_of_mem a hb) c (List.mem_cons_of_mem a hc)]

/-- No event can undo the property. -/
def Absorbing (step : σ → ε → σ) (P : σ → Prop) : Prop := ∀ s e, P s → P (step s e)

theorem Absorbing.replayUntil {step : σ → ε → σ} {P : σ → Prop} (hP : Absorbing step P)
    (later : ε → Bool) {s : σ} (hs : P s) (es : List ε) : P (replayUntil later step s es) := by
  induction es generalizing s with
  | nil => exact hs
  | cons e es ih =>
    by_cases he : later e = true
    · simpa only [CoolSdk.replayUntil, he, if_true] using hs
    · simpa only [CoolSdk.replayUntil, he, Bool.false_eq_true, if_false] using ih (hP s e hs)

/-- On a timeline in order, an event that is not later than the moment is replayed, so an
absorbing property it establishes holds at that moment. -/
theorem Absorbing.of_sorted {step : σ → ε → σ} {P : σ → Prop} (hP : Absorbing step P)
    (later : ε → Bool) {time : ε → Int} {es : List ε}
    (hsorted : es.Pairwise fun a b => time a ≤ time b)
    (hlater : ∀ a ∈ es, ∀ b ∈ es, time a ≤ time b → later a = true → later b = true)
    {e : ε} (he : e ∈ es) (hnow : later e = false) (hset : ∀ s, P (step s e)) (s : σ) :
    P (CoolSdk.replayUntil later step s es) := by
  induction es generalizing s with
  | nil => cases he
  | cons a es ih =>
    obtain ⟨hhead, htail⟩ := List.pairwise_cons.mp hsorted
    have ha : later a = false := by
      rcases List.mem_cons.mp he with rfl | hmem
      · exact hnow
      · by_contra hlate
        have hl := hlater a List.mem_cons_self e he (hhead e hmem) (by simpa using hlate)
        rw [hnow] at hl
        cases hl
    simp only [CoolSdk.replayUntil, ha, Bool.false_eq_true, if_false]
    rcases List.mem_cons.mp he with rfl | hmem
    · exact hP.replayUntil later (hset s) es
    · refine ih htail ?_ hmem (step s a)
      intro x hx y hy
      exact hlater x (List.mem_cons_of_mem a hx) y (List.mem_cons_of_mem a hy)

end CoolSdk
