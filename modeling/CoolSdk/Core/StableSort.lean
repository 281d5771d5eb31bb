import Mathlib.Data.List.Sort
import Mathlib.Order.Defs.LinearOrder

/-!
# Stable sorting by a key

A stable sort leaves the elements of one key, the fibre of that key, in the order they came in.
Its result is therefore the same for two lists exactly if they have the same fibres, however
their elements of different keys are mixed.
-/

namespace CoolSdk

universe u v w

variable {α : Type u} {κ : Type v}

section Fibre

variable [DecidableEq κ] (key : α → κ)

/-- The elements of one key, in the order of the list. -/
def fibre (l : List α) (k : κ) : List α := l.filter fun a => decide (key a = k)

@[simp] theorem mem_fibre {l : List α} {k : κ} {a : α} :
    a ∈ fibre key l k ↔ a ∈ l ∧ key a = k := by
  rw [fibre, List.mem_filter, decide_eq_true_eq]

@[simp] theorem fibre_nil (k : κ) : fibre key [] k = [] := rfl

@[simp] theorem fibre_append (l m : List α) (k : κ) :
    fibre key (l ++ m) k = fibre key l k ++ fibre key m k :=
  List.filter_append ..

theorem fibre_cons_of_eq {a : α} {k : κ} (h : key a = k) (l : List α) :
    fibre key (a :: l) k = a :: fibre key l k :=
  List.filter_cons_of_pos (decide_eq_true h)

theorem fibre_cons_of_ne {a : α} {k : κ} (h : key a ≠ k) (l : List α) :
    fibre key (a :: l) k = fibre key l k :=
  List.filter_cons_of_neg (by simpa using h)

/-- The fibre of a list whose images under a function are taken. -/
theorem fibre_map {β : Type w} (g : β → α) (l : List β) (k : κ) :
    fibre key (l.map g) k = (fibre (fun b => key (g b)) l k).map g := List.filter_map ..

variable {key}

theorem fibre_eq_self {l : List α} {k : κ} (h : ∀ a ∈ l, key a = k) : fibre key l k = l :=
  List.filter_eq_self.mpr fun a ha => decide_eq_true (h a ha)

theorem fibre_eq_nil {l : List α} {k : κ} (h : ∀ a ∈ l, key a ≠ k) : fibre key l k = [] :=
  List.filter_eq_nil_iff.mpr fun a ha => by simpa using h a ha

/-- Lists whose first elements are the same have the same fibres if what follows does. -/
theorem fibres_of_cons {a : α} {l m : List α}
    (h : ∀ k, fibre key (a :: l) k = fibre key (a :: m) k) (k : κ) :
    fibre key l k = fibre key m k := by
  have hk := h k
  by_cases ha : key a = k
  · rw [fibre_cons_of_eq key ha, fibre_cons_of_eq key ha] at hk
    exact List.tail_eq_of_cons_eq hk
  · rwa [fibre_cons_of_ne key ha, fibre_cons_of_ne key ha] at hk

/-- Where an element is determined by its key, rearranging a list leaves its fibres alone. -/
theorem fibre_eq_of_perm {l m : List α} (h : l.Perm m)
    (hkey : ∀ a ∈ l, ∀ b ∈ l, key a = key b → a = b) (k : κ) : fibre key l k = fibre key m k := by
  have hfibres : (fibre key l k).Perm (fibre key m k) := h.filter _
  cases hl : fibre key l k with
  | nil =>
    rw [hl] at hfibres
    exact hfibres.nil_eq
  | cons a rest =>
    have ha : a ∈ l ∧ key a = k := by
      rw [← mem_fibre, hl]
      exact List.mem_cons_self
    have hsame : ∀ b ∈ a :: rest, b = a := by
      intro b hb
      rw [← hl, mem_fibre] at hb
      exact hkey b hb.1 a ha.1 (hb.2.trans ha.2.symm)
    rw [hl, List.eq_replicate_of_mem hsame] at hfibres
    rw [List.eq_replicate_of_mem hsame]
    exact (List.perm_replicate.mp hfibres.symm).symm

/-- Lists with the same fibres list the same elements. -/
theorem perm_of_fibres {l m : List α} (h : ∀ k, fibre key l k = fibre key m k) : l.Perm m := by
  classical
  have hcount : ∀ (l : List α) (a : α), (fibre key l (key a)).count a = l.count a := fun l a =>
    List.count_filter (decide_eq_true rfl)
  rw [List.perm_iff_count]
  intro a
  rw [← hcount, h, hcount]

/-- A key that is told by another has its fibres. -/
theorem fibres_comp_iff {ι : Type w} [DecidableEq ι] {f : κ → ι} (hf : Function.Injective f)
    {l m : List α} : (∀ i, fibre (fun a => f (key a)) l i = fibre (fun a => f (key a)) m i) ↔
      ∀ k, fibre key l k = fibre key m k := by
  have hsame : ∀ (l : List α) k, fibre (fun a => f (key a)) l (f k) = fibre key l k := by
    intro l k
    exact List.filter_congr fun a _ => decide_eq_decide.mpr hf.eq_iff
  constructor
  · intro h k
    rw [← hsame, h, hsame]
  · intro h i
    by_cases hi : ∃ k, f k = i
    · obtain ⟨k, rfl⟩ := hi
      rw [hsame, hsame, h]
    · have hnil : ∀ l : List α, fibre (fun a => f (key a)) l i = [] := fun l =>
        fibre_eq_nil fun a _ hai => hi ⟨key a, hai⟩
      rw [hnil, hnil]

end Fibre

section Stable

variable [LinearOrder κ] (key : α → κ)

/-- A list sorted by key, with the elements of one key in the order they had. -/
structure StablySorted (l sorted : List α) : Prop where
  ascending : sorted.Pairwise fun a b => key a ≤ key b
  fibres : ∀ k, fibre key sorted k = fibre key l k

variable {key}

/-- Sorted lists with the same fibres are equal. -/
theorem eq_of_fibres {l m : List α} (hl : l.Pairwise fun a b => key a ≤ key b)
    (hm : m.Pairwise fun a b => key a ≤ key b) (h : ∀ k, fibre key l k = fibre key m k) :
    l = m := by
  induction l generalizing m with
  | nil =>
    cases m with
    | nil => rfl
    | cons b m =>
      have hb := h (key b)
      rw [fibre_cons_of_eq key rfl] at hb
      cases hb
  | cons a l ih =>
    cases m with
    | nil =>
      have ha := h (key a)
      rw [fibre_cons_of_eq key rfl] at ha
      cases ha
    | cons b m =>
      rw [List.pairwise_cons] at hl hm
      -- Each head is found in the other list, so neither key is below the other.
      have hab : key a ≤ key b := by
        have hmem : b ∈ fibre key (a :: l) (key b) := by
          rw [h, fibre_cons_of_eq key rfl]
          exact List.mem_cons_self
        rcases List.mem_cons.mp ((mem_fibre key).mp hmem).1 with rfl | hb
        · exact le_rfl
        · exact hl.1 b hb
      have hba : key b ≤ key a := by
        have hmem : a ∈ fibre key (b :: m) (key a) := by
          rw [← h, fibre_cons_of_eq key rfl]
          exact List.mem_cons_self
        rcases List.mem_cons.mp ((mem_fibre key).mp hmem).1 with rfl | ha
        · exact le_rfl
        · exact hm.1 a ha
      have hkey : key a = key b := le_antisymm hab hba
      have hheads := h (key b)
      rw [fibre_cons_of_eq key hkey, fibre_cons_of_eq key rfl] at hheads
      obtain rfl := List.head_eq_of_cons_eq hheads
      rw [ih hl.2 hm.2 (fibres_of_cons h)]

/-- Two lists are sorted into the same list exactly if they have the same fibres. -/
theorem StablySorted.eq_iff {l m s t : List α} (hl : StablySorted key l s)
    (hm : StablySorted key m t) : s = t ↔ ∀ k, fibre key l k = fibre key m k := by
  constructor
  · rintro rfl k
    rw [← hl.fibres, hm.fibres]
  · intro h
    refine eq_of_fibres hl.ascending hm.ascending fun k => ?_
    rw [hl.fibres, hm.fibres, h]

/-- The same for lists sorted by what tells the key. -/
theorem StablySorted.eq_iff_comp {ι : Type w} [DecidableEq ι] {f : ι → κ} {key : α → ι}
    (hf : Function.Injective f) {l m s t : List α}
    (hl : StablySorted (fun a => f (key a)) l s) (hm : StablySorted (fun a => f (key a)) m t) :
    s = t ↔ ∀ k, fibre key l k = fibre key m k :=
  (hl.eq_iff hm).trans (fibres_comp_iff hf)

/-- Insertion sort is stable. -/
theorem stablySorted_insertionSort (l : List α) :
    StablySorted key l (l.insertionSort fun a b => key a ≤ key b) where
  ascending := List.pairwise_insertionSort _ l
  fibres k := by
    have hpairs : (fibre key l k).Pairwise fun a b => key a ≤ key b := by
      refine List.pairwise_of_forall_mem_list fun a ha b hb => ?_
      exact (((mem_fibre key).mp ha).2.trans ((mem_fibre key).mp hb).2.symm).le
    have hsub : (fibre key l k).Sublist (l.insertionSort fun a b => key a ≤ key b) :=
      List.sublist_insertionSort hpairs List.filter_sublist
    have hinto := hsub.filter fun a => decide (key a = k)
    rw [fibre, List.filter_filter] at hinto
    simp only [Bool.and_self] at hinto
    refine (hinto.eq_of_length ?_).symm
    exact ((List.perm_insertionSort _ l).filter _).length_eq.symm

end Stable

/-! ## Sorting by relations that agree -/

theorem orderedInsert_congr {r r' : α → α → Prop} [DecidableRel r] [DecidableRel r'] {a : α}
    {l : List α} (h : ∀ b ∈ l, r a b ↔ r' a b) : l.orderedInsert r a = l.orderedInsert r' a := by
  induction l with
  | nil => rfl
  | cons b l ih =>
    have hb := h b List.mem_cons_self
    have ih' := ih fun c hc => h c (List.mem_cons_of_mem b hc)
    by_cases hab : r a b
    · simp only [List.orderedInsert, hab, hb.mp hab, if_true]
    · have hab' : ¬r' a b := fun h' => hab (hb.mpr h')
      simp only [List.orderedInsert, hab, hab', if_false, ih']

/-- Relations that agree on a list sort it alike. -/
theorem insertionSort_congr {r r' : α → α → Prop} [DecidableRel r] [DecidableRel r']
    {l : List α} (h : ∀ a ∈ l, ∀ b ∈ l, r a b ↔ r' a b) :
    l.insertionSort r = l.insertionSort r' := by
  induction l with
  | nil => rfl
  | cons a l ih =>
    have ih' := ih fun x hx y hy => h x (List.mem_cons_of_mem a hx) y (List.mem_cons_of_mem a hy)
    simp only [List.insertionSort_cons, ih']
    apply orderedInsert_congr
    intro b hb
    exact h a List.mem_cons_self b (List.mem_cons_of_mem a ((List.mem_insertionSort r').mp hb))

/-! ## Permutations through a function -/

/-- Lists whose images under one function are permutations have images under another that are,
where the first function determines the second. -/
theorem perm_map_of_perm_map {β : Type w} {γ : Type v} {f : α → β} {g : α → γ} {l m : List α}
    (h : (l.map g).Perm (m.map g)) (hfg : ∀ a ∈ l, ∀ b ∈ m, g a = g b → f a = f b) :
    (l.map f).Perm (m.map f) := by
  induction l generalizing m with
  | nil =>
    rw [List.map_nil] at h
    rw [List.map_eq_nil_iff.mp h.nil_eq.symm]
  | cons a l ih =>
    have hmem : g a ∈ m.map g := h.subset List.mem_cons_self
    obtain ⟨b, hb, hgb⟩ := List.mem_map.mp hmem
    obtain ⟨p, q, rfl⟩ := List.append_of_mem hb
    have hmiddle : (p ++ b :: q).Perm (b :: (p ++ q)) := List.perm_middle
    have hrest : (l.map g).Perm ((p ++ q).map g) := by
      have htrans := h.trans (hmiddle.map g)
      rw [List.map_cons, List.map_cons, hgb] at htrans
      exact htrans.cons_inv
    have ih' := ih hrest fun x hx y hy =>
      hfg x (List.mem_cons_of_mem a hx) y (hmiddle.symm.subset (List.mem_cons_of_mem b hy))
    rw [List.map_cons, hfg a List.mem_cons_self b hb hgb.symm]
    exact (ih'.cons (f b)).trans (hmiddle.map f).symm

end CoolSdk
