import CoolSdk.Core.OrderedMap
import Mathlib.Data.List.Sort

/-!
# Lists of keyed entries

A list in which keys may repeat, read as a map by its last entry for each key. Sorting
by key is stable, so it changes no reading, and lists with distinct keys that read the
same sort to the same list.
-/

namespace CoolSdk.Entries

variable {κ : Type*} {α : Type*} [DecidableEq κ]

/-- The value of the last entry with a key. -/
def last (m : List (κ × α)) (k : κ) : Option α :=
  ((m.filter fun e => e.1 = k).getLast?).map Prod.snd

theorem last_cons (e : κ × α) (m : List (κ × α)) (k : κ) :
    last (e :: m) k = (last m k).or (if e.1 = k then some e.2 else none) := by
  unfold last
  by_cases he : e.1 = k
  · rw [List.filter_cons_of_pos (by simpa using he), if_pos he, List.getLast?_cons]
    cases (m.filter fun e => e.1 = k).getLast? <;> rfl
  · rw [List.filter_cons_of_neg (by simpa using he), if_neg he, Option.or_none]

theorem last_map {β : Type*} (f : α → β) (m : List (κ × α)) (k : κ) :
    last (m.map fun e => (e.1, f e.2)) k = (last m k).map f := by
  induction m with
  | nil => rfl
  | cons e m ih =>
    rw [List.map_cons, last_cons, last_cons, ih, Option.map_or]
    by_cases he : e.1 = k
    · simp only [he, if_true, Option.map_some]
    · simp only [he, if_false, Option.map_none]

/-- A value read is one of the entries. -/
theorem mem_of_last {m : List (κ × α)} {k : κ} {v : α} (h : last m k = some v) : (k, v) ∈ m := by
  unfold last at h
  obtain ⟨e, he, rfl⟩ := Option.map_eq_some_iff.mp h
  have hmem := List.mem_of_getLast? he
  have hk := List.of_mem_filter hmem
  rw [decide_eq_true_eq] at hk
  subst hk
  exact List.mem_of_mem_filter hmem

/-- A key is read exactly when some entry carries it. -/
theorem last_isSome_iff (m : List (κ × α)) (k : κ) :
    (last m k).isSome ↔ k ∈ m.map Prod.fst := by
  induction m with
  | nil => simp [last]
  | cons e m ih =>
    rw [last_cons, Option.isSome_or, Bool.or_eq_true, ih, List.map_cons, List.mem_cons]
    by_cases he : e.1 = k
    · simp only [he, if_true, Option.isSome_some, or_true, true_or]
    · have he' : k ≠ e.1 := fun h => he h.symm
      simp only [he, he', if_false, Option.isSome_none, Bool.false_eq_true, or_false, false_or]

/-- No two entries share a key or a value. -/
def Independent (m : List (κ × α)) : Prop := (m.map Prod.fst).Nodup ∧ (m.map Prod.snd).Nodup

/-- Only the last entry of each key. -/
def keepLast : List (κ × α) → List (κ × α)
  | [] => []
  | e :: m => if e.1 ∈ m.map Prod.fst then keepLast m else e :: keepLast m

theorem mem_keys_keepLast (m : List (κ × α)) (k : κ) :
    k ∈ (keepLast m).map Prod.fst ↔ k ∈ m.map Prod.fst := by
  induction m with
  | nil => rfl
  | cons e m ih =>
    by_cases he : e.1 ∈ m.map Prod.fst
    · simp only [keepLast, he, if_true, ih, List.map_cons, List.mem_cons]
      constructor
      · exact Or.inr
      · rintro (rfl | hk)
        · exact he
        · exact hk
    · simp only [keepLast, he, if_false, List.map_cons, List.mem_cons, ih]

theorem nodup_keepLast (m : List (κ × α)) : ((keepLast m).map Prod.fst).Nodup := by
  induction m with
  | nil => exact List.nodup_nil
  | cons e m ih =>
    by_cases he : e.1 ∈ m.map Prod.fst
    · simpa only [keepLast, he, if_true] using ih
    · simp only [keepLast, he, if_false, List.map_cons, List.nodup_cons, mem_keys_keepLast,
        not_false_eq_true, ih, and_self]

/-- What is kept of a list reads as the list does. -/
theorem get_keepLast (m : List (κ × α)) (k : κ) : get (keepLast m) k = last m k := by
  induction m with
  | nil => rfl
  | cons e m ih =>
    obtain ⟨k', v⟩ := e
    rw [last_cons]
    by_cases he : k' ∈ m.map Prod.fst
    · simp only [keepLast, he, if_true, ih]
      by_cases hk : k' = k
      · obtain ⟨w, hw⟩ := Option.isSome_iff_exists.mp ((last_isSome_iff m k).mpr (hk ▸ he))
        rw [hw, Option.some_or]
      · rw [if_neg hk, Option.or_none]
    · simp only [keepLast, he, if_false, get, ih]
      by_cases hk : k' = k
      · have hnone : last m k = none := by
          rw [← Option.not_isSome_iff_eq_none, last_isSome_iff, ← hk]
          exact he
        rw [if_pos hk, if_pos hk, hnone, Option.none_or]
      · rw [if_neg hk, if_neg hk, Option.or_none]

/-- Lists with distinct keys that read the same list the same entries. -/
theorem perm_of_get_eq {m m' : List (κ × α)} (hm : (m.map Prod.fst).Nodup)
    (hm' : (m'.map Prod.fst).Nodup) (h : ∀ k, get m k = get m' k) : m.Perm m' := by
  rw [List.perm_ext_iff_of_nodup (List.Nodup.of_map Prod.fst hm) (List.Nodup.of_map Prod.fst hm')]
  rintro ⟨k, v⟩
  constructor
  · intro hmem
    exact mem_of_get (h k ▸ get_of_mem hm hmem)
  · intro hmem
    exact mem_of_get ((h k).symm ▸ get_of_mem hm' hmem)

/-- Reading a list with distinct keys does not depend on the order of its entries. -/
theorem get_eq_of_perm {m m' : List (κ × α)} (hm : (m.map Prod.fst).Nodup) (h : m.Perm m')
    (k : κ) : get m k = get m' k := by
  have hm' : (m'.map Prod.fst).Nodup := (h.map Prod.fst).nodup_iff.mp hm
  cases hget : get m k with
  | some v => rw [get_of_mem hm' (h.subset (mem_of_get hget))]
  | none =>
    cases hget' : get m' k with
    | none => rfl
    | some v =>
      rw [get_of_mem hm (h.symm.subset (mem_of_get hget'))] at hget
      cases hget

section Sorting

variable {r : κ × α → κ × α → Prop} [DecidableRel r]

/-- Sorting by key keeps the entries of each key in order. -/
theorem filter_insertionSort (hr : ∀ a b, a.1 = b.1 → r a b) (m : List (κ × α)) (k : κ) :
    (m.insertionSort r).filter (fun e => e.1 = k) = m.filter fun e => e.1 = k := by
  have hsorted : (m.filter fun e => e.1 = k).Pairwise r := by
    rw [List.pairwise_iff_forall_sublist]
    intro a b hab
    have ha := List.of_mem_filter (hab.subset List.mem_cons_self)
    have hb := List.of_mem_filter (hab.subset (List.mem_cons_of_mem a List.mem_cons_self))
    rw [decide_eq_true_eq] at ha hb
    exact hr a b (ha.trans hb.symm)
  have hsub := (List.sublist_insertionSort hsorted List.filter_sublist).filter fun e => e.1 = k
  rw [List.filter_filter] at hsub
  simp only [Bool.and_self] at hsub
  refine (hsub.eq_of_length ?_).symm
  exact ((List.perm_insertionSort r m).filter _).length_eq.symm

/-- Sorting by key changes no reading. -/
theorem last_insertionSort (hr : ∀ a b, a.1 = b.1 → r a b) (m : List (κ × α)) (k : κ) :
    last (m.insertionSort r) k = last m k := by
  rw [last, filter_insertionSort hr, last]

/-- Lists with distinct keys that read the same sort to the same list. -/
theorem insertionSort_eq_of_get [Std.Total r] [IsTrans (κ × α) r]
    (hr : ∀ a b, r a b → r b a → a.1 = b.1) {m m' : List (κ × α)}
    (hm : (m.map Prod.fst).Nodup) (hm' : (m'.map Prod.fst).Nodup)
    (h : ∀ k, get m k = get m' k) : m.insertionSort r = m'.insertionSort r := by
  have hperm := perm_of_get_eq hm hm' h
  refine List.Perm.eq_of_pairwise ?_ (List.pairwise_insertionSort r m)
    (List.pairwise_insertionSort r m') ?_
  · rintro ⟨k, v⟩ ⟨k', v'⟩ ha hb hab hba
    have hk : k = k' := hr _ _ hab hba
    subst hk
    have hv := get_of_mem hm ((List.mem_insertionSort r).mp ha)
    have hv' := get_of_mem hm' ((List.mem_insertionSort r).mp hb)
    rw [h k, hv', Option.some.injEq] at hv
    rw [hv]
  · exact (List.perm_insertionSort r m).trans
      (hperm.trans (List.perm_insertionSort r m').symm)

end Sorting

end CoolSdk.Entries
