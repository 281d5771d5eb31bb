import Mathlib.Data.List.Infix
import Mathlib.Data.Set.Insert

/-!
# Patterns with a wildcard at the end

A pattern stands for one word, or for every word under a stem. Whether all words of one pattern
are words of another is decided on the patterns, over any alphabet with a symbol in it. Words may
be spelled in a code; where no code word extends another, prefixes are kept.
-/

namespace CoolSdk

variable {α β : Type*}

/-- One word, or everything under a stem. -/
inductive Wildcard (α : Type*)
  | word (w : List α)
  | under (stem : List α)
  deriving DecidableEq, Repr

namespace Wildcard

/-- The words of a pattern. -/
def words : Wildcard α → Set (List α)
  | word w => {w}
  | under stem => {v | stem <+: v}

/-- The test on two patterns. A stem is never inside a single word. -/
def Inside : Wildcard α → Wildcard α → Prop
  | word w, word w' => w = w'
  | under _, word _ => False
  | word w, under stem => stem <+: w
  | under stem', under stem => stem <+: stem'

theorem mem_words_word {w v : List α} : v ∈ (word w).words ↔ v = w := Iff.rfl

theorem mem_words_under {stem v : List α} : v ∈ (under stem).words ↔ stem <+: v := Iff.rfl

/-- Under a stem there are two words of different lengths. -/
theorem not_words_under_subset [Nonempty α] (stem w : List α) :
    ¬(under stem).words ⊆ (word w).words := by
  intro hsub
  obtain ⟨a⟩ := ‹Nonempty α›
  have hstem : stem = w := hsub (mem_words_under.mpr List.prefix_rfl)
  have hlonger : stem ++ [a] = w := hsub (mem_words_under.mpr (List.prefix_append stem [a]))
  have hlen := congrArg List.length (hlonger.trans hstem.symm)
  rw [List.length_append, List.length_singleton] at hlen
  omega

/-- The test decides whether all words of one pattern are words of another. -/
theorem inside_iff [Nonempty α] (r p : Wildcard α) : r.Inside p ↔ r.words ⊆ p.words := by
  cases r with
  | word w =>
    have hone : (word w).words ⊆ p.words ↔ w ∈ p.words := Set.singleton_subset_iff
    rw [hone]
    cases p with
    | word w' => exact Iff.rfl
    | under stem => exact Iff.rfl
  | under stem' =>
    cases p with
    | word w => exact iff_of_false id (not_words_under_subset stem' w)
    | under stem =>
      constructor
      · intro h v hv
        exact List.IsPrefix.trans h hv
      · intro hsub
        exact hsub (mem_words_under.mpr List.prefix_rfl)

/-! ## Patterns in writing -/

section

variable [DecidableEq α] {mark : α} {l : List α}

/-- A mark at the end leaves the rest as a stem. -/
def ofMarked (mark : α) (l : List α) : Wildcard α :=
  if l.getLast? = some mark then under l.dropLast else word l

/-- Whether a pattern in writing covers a word. -/
def covers (mark : α) (pattern value : List α) : Bool :=
  if pattern.getLast? = some mark then pattern.dropLast.isPrefixOf value
  else decide (pattern = value)

/-- Whether a pattern in writing is inside another. -/
def within (mark : α) (r p : List α) : Bool :=
  if p.getLast? = some mark then
    p.dropLast.isPrefixOf (if r.getLast? = some mark then r.dropLast else r)
  else decide (r.getLast? ≠ some mark ∧ r = p)

theorem ofMarked_of_eq (h : l.getLast? = some mark) : ofMarked mark l = under l.dropLast :=
  if_pos h

theorem ofMarked_of_ne (h : l.getLast? ≠ some mark) : ofMarked mark l = word l := if_neg h

theorem covers_iff (pattern value : List α) :
    covers mark pattern value = true ↔ value ∈ (ofMarked mark pattern).words := by
  by_cases h : pattern.getLast? = some mark
  · rw [covers, if_pos h, ofMarked_of_eq h, List.isPrefixOf_iff_prefix, mem_words_under]
  · rw [covers, if_neg h, ofMarked_of_ne h, decide_eq_true_eq, mem_words_word, eq_comm]

theorem within_iff_inside (r p : List α) :
    within mark r p = true ↔ (ofMarked mark r).Inside (ofMarked mark p) := by
  by_cases hp : p.getLast? = some mark
  · rw [within, if_pos hp, ofMarked_of_eq hp, List.isPrefixOf_iff_prefix]
    by_cases hr : r.getLast? = some mark
    · rw [if_pos hr, ofMarked_of_eq hr]
      exact Iff.rfl
    · rw [if_neg hr, ofMarked_of_ne hr]
      exact Iff.rfl
  · rw [within, if_neg hp, ofMarked_of_ne hp, decide_eq_true_eq]
    by_cases hr : r.getLast? = some mark
    · rw [ofMarked_of_eq hr]
      exact iff_of_false (fun h => h.1 hr) id
    · rw [ofMarked_of_ne hr]
      exact and_iff_right hr

/-- The test on written patterns decides whether one covers all that the other does. -/
theorem within_iff_covers (r p : List α) :
    within mark r p = true ↔ ∀ v, covers mark r v = true → covers mark p v = true := by
  have : Nonempty α := ⟨mark⟩
  rw [within_iff_inside, inside_iff]
  simp only [covers_iff]
  exact Iff.rfl

end

end Wildcard

/-! ## Words in a code -/

/-- A code no word of which extends another; the word of the mark is one symbol, and no other word
ends in it. -/
structure MarkedCode (code : α → List β) (mark : α) (symbol : β) : Prop where
  free : ∀ a b, code a <+: code b → a = b
  ne_nil : ∀ a, code a ≠ []
  mark_eq : code mark = [symbol]
  last : ∀ a, (code a).getLast? = some symbol → a = mark

namespace MarkedCode

variable {code : α → List β} {mark : α} {symbol : β} {s t : List α}

/-- An encoded text starts as another does exactly if the text does. -/
theorem prefix_iff (h : MarkedCode code mark symbol) :
    s.flatMap code <+: t.flatMap code ↔ s <+: t := by
  constructor
  · intro hst
    induction s generalizing t with
    | nil => exact List.nil_prefix
    | cons a s ih =>
      cases t with
      | nil =>
        rw [List.flatMap_nil, List.prefix_nil, List.flatMap_cons, List.append_eq_nil_iff] at hst
        exact absurd hst.1 (h.ne_nil a)
      | cons b t =>
        rw [List.flatMap_cons, List.flatMap_cons] at hst
        have hhead : a = b := by
          rcases List.prefix_or_prefix_of_prefix ((List.prefix_append _ _).trans hst)
            (List.prefix_append (code b) _) with hab | hba
          · exact h.free a b hab
          · exact (h.free b a hba).symm
        subst hhead
        exact List.cons_prefix_cons.mpr ⟨rfl, ih ((List.prefix_append_right_inj _).mp hst)⟩
  · rintro ⟨rest, rfl⟩
    rw [List.flatMap_append]
    exact List.prefix_append _ _

theorem injective (h : MarkedCode code mark symbol) : s.flatMap code = t.flatMap code ↔ s = t := by
  constructor
  · intro hst
    have hleft : s <+: t := h.prefix_iff.mp (hst ▸ List.prefix_rfl)
    have hright : t <+: s := h.prefix_iff.mp (hst ▸ List.prefix_rfl)
    exact hleft.eq_of_length_le hright.length_le
  · rintro rfl
    rfl

/-- The mark ends an encoded text exactly if it ends the text. -/
theorem getLast?_iff (h : MarkedCode code mark symbol) :
    (s.flatMap code).getLast? = some symbol ↔ s.getLast? = some mark := by
  rcases List.eq_nil_or_concat s with rfl | ⟨init, a, rfl⟩
  · exact iff_of_false (by simp) (by simp)
  · rw [List.concat_eq_append, List.flatMap_append, List.flatMap_singleton,
      List.getLast?_append_of_ne_nil _ (h.ne_nil a), List.getLast?_concat, Option.some.injEq]
    constructor
    · exact h.last a
    · rintro rfl
      rw [h.mark_eq]
      rfl

theorem dropLast_eq (h : MarkedCode code mark symbol) (hs : s.getLast? = some mark) :
    (s.flatMap code).dropLast = s.dropLast.flatMap code := by
  obtain ⟨init, rfl⟩ := List.getLast?_eq_some_iff.mp hs
  rw [List.flatMap_append, List.flatMap_singleton, h.mark_eq, List.dropLast_concat,
    List.dropLast_concat]

variable [DecidableEq α] [DecidableEq β]

theorem isPrefixOf_eq (h : MarkedCode code mark symbol) (s t : List α) :
    (s.flatMap code).isPrefixOf (t.flatMap code) = s.isPrefixOf t := by
  rw [Bool.eq_iff_iff, List.isPrefixOf_iff_prefix, List.isPrefixOf_iff_prefix, h.prefix_iff]

/-- Encoding keeps what a written pattern covers. -/
theorem covers_eq (h : MarkedCode code mark symbol) (pattern value : List α) :
    Wildcard.covers symbol (pattern.flatMap code) (value.flatMap code) =
      Wildcard.covers mark pattern value := by
  by_cases hp : pattern.getLast? = some mark
  · rw [Wildcard.covers, Wildcard.covers, if_pos hp, if_pos (h.getLast?_iff.mpr hp),
      h.dropLast_eq hp, h.isPrefixOf_eq]
  · rw [Wildcard.covers, Wildcard.covers, if_neg hp, if_neg (mt h.getLast?_iff.mp hp)]
    exact decide_eq_decide.mpr h.injective

/-- Encoding keeps which written pattern is inside which. -/
theorem within_eq (h : MarkedCode code mark symbol) (r p : List α) :
    Wildcard.within symbol (r.flatMap code) (p.flatMap code) = Wildcard.within mark r p := by
  by_cases hp : p.getLast? = some mark
  · rw [Wildcard.within, Wildcard.within, if_pos hp, if_pos (h.getLast?_iff.mpr hp),
      h.dropLast_eq hp]
    by_cases hr : r.getLast? = some mark
    · rw [if_pos hr, if_pos (h.getLast?_iff.mpr hr), h.dropLast_eq hr, h.isPrefixOf_eq]
    · rw [if_neg hr, if_neg (mt h.getLast?_iff.mp hr), h.isPrefixOf_eq]
  · rw [Wildcard.within, Wildcard.within, if_neg hp, if_neg (mt h.getLast?_iff.mp hp)]
    exact decide_eq_decide.mpr (and_congr (not_congr h.getLast?_iff) h.injective)

end MarkedCode

end CoolSdk
