import Mathlib.Data.List.Basic
import Mathlib.Data.List.Nodup

/-!
# Insertion-ordered maps

Entries keep the order in which their keys first arrived; writing an existing key
replaces its value in place. Keys are pairwise distinct by construction, so a
lookup has at most one answer and the entry list is exactly the graph of `get`.
-/

namespace CoolSdk

variable {κ : Type*} {α : Type*} [DecidableEq κ]

namespace Entries

/-- The value stored under a key. -/
def get : List (κ × α) → κ → Option α
  | [], _ => none
  | (k', v) :: m, k => if k' = k then some v else get m k

/-- Write a value, in place when the key is present and last when it is not. -/
def set : List (κ × α) → κ → α → List (κ × α)
  | [], k, v => [(k, v)]
  | (k', v') :: m, k, v => if k' = k then (k, v) :: m else (k', v') :: set m k v

/-- Remove a key. -/
def erase : List (κ × α) → κ → List (κ × α)
  | [], _ => []
  | (k', v) :: m, k => if k' = k then m else (k', v) :: erase m k

theorem get_set_self (m : List (κ × α)) (k : κ) (v : α) : get (set m k v) k = some v := by
  induction m with
  | nil => simp [set, get]
  | cons e m ih =>
    obtain ⟨k', v'⟩ := e
    by_cases h : k' = k <;> simp [set, get, h, ih]

theorem get_set_ne (m : List (κ × α)) {k k₂ : κ} (v : α) (hne : k ≠ k₂) :
    get (set m k v) k₂ = get m k₂ := by
  induction m with
  | nil => simp [set, get, hne]
  | cons e m ih =>
    obtain ⟨k', v'⟩ := e
    by_cases h : k' = k
    · subst h
      simp [set, get, hne]
    · simp only [set, h, ite_false, get, ih]

/-- A stored value is one of the entries. -/
theorem mem_of_get {m : List (κ × α)} {k : κ} {v : α} (h : get m k = some v) : (k, v) ∈ m := by
  induction m with
  | nil => simp [get] at h
  | cons e m ih =>
    obtain ⟨k', v'⟩ := e
    by_cases hk : k' = k
    · simp only [get, hk, ite_true, Option.some.injEq] at h
      simp [hk, h]
    · simp only [get, hk, ite_false] at h
      exact List.mem_cons_of_mem _ (ih h)

theorem get_append (m l : List (κ × α)) (k : κ) : get (m ++ l) k = (get m k).or (get l k) := by
  induction m with
  | nil => rfl
  | cons e m ih =>
    by_cases h : e.1 = k
    · simp only [List.cons_append, get, h, if_true, Option.some_or]
    · simp only [List.cons_append, get, h, if_false, ih]

/-- A key is stored exactly when some entry carries it. -/
theorem get_isSome_iff (m : List (κ × α)) (k : κ) :
    (get m k).isSome ↔ k ∈ m.map Prod.fst := by
  induction m with
  | nil => simp [get]
  | cons e m ih =>
    obtain ⟨k', v'⟩ := e
    by_cases hk : k' = k
    · simp [get, hk]
    · have hk' : k ≠ k' := fun he => hk he.symm
      simp [get, hk, ih, hk']

theorem keys_set (m : List (κ × α)) (k : κ) (v : α) :
    (set m k v).map Prod.fst = if k ∈ m.map Prod.fst then m.map Prod.fst
      else m.map Prod.fst ++ [k] := by
  induction m with
  | nil => simp [set]
  | cons e m ih =>
    obtain ⟨k', v'⟩ := e
    by_cases hk : k' = k
    · simp [set, hk]
    · have hk' : k ≠ k' := fun he => hk he.symm
      simp only [set, hk, ite_false, List.map_cons, ih, List.mem_cons, hk', false_or]
      split <;> simp

/-- A new key goes last. -/
theorem set_of_not_mem {m : List (κ × α)} {k : κ} (h : k ∉ m.map Prod.fst) (v : α) :
    set m k v = m ++ [(k, v)] := by
  induction m with
  | nil => rfl
  | cons e m ih =>
    obtain ⟨k', v'⟩ := e
    rw [List.map_cons, List.mem_cons, not_or] at h
    rw [set, if_neg (Ne.symm h.1), ih h.2, List.cons_append]

theorem nodup_set {m : List (κ × α)} (hm : (m.map Prod.fst).Nodup) (k : κ) (v : α) :
    ((set m k v).map Prod.fst).Nodup := by
  rw [keys_set]
  by_cases hk : k ∈ m.map Prod.fst
  · simpa only [hk, ite_true] using hm
  · simp only [hk, ite_false]
    exact List.nodup_append.mpr ⟨hm, List.nodup_singleton k, by
      intro a ha b hb he
      exact hk (by rwa [he, List.mem_singleton.mp hb] at ha)⟩

theorem erase_sublist (m : List (κ × α)) (k : κ) : (erase m k).Sublist m := by
  induction m with
  | nil => exact List.Sublist.refl _
  | cons e m ih =>
    obtain ⟨k', v'⟩ := e
    by_cases h : k' = k
    · simp only [erase, h, ite_true]
      exact List.sublist_cons_self _ _
    · simp only [erase, h, ite_false]
      exact ih.cons_cons _

theorem nodup_erase {m : List (κ × α)} (hm : (m.map Prod.fst).Nodup) (k : κ) :
    ((erase m k).map Prod.fst).Nodup :=
  hm.sublist ((erase_sublist m k).map Prod.fst)

theorem get_erase_ne (m : List (κ × α)) {k k₂ : κ} (hne : k ≠ k₂) :
    get (erase m k) k₂ = get m k₂ := by
  induction m with
  | nil => rfl
  | cons e m ih =>
    obtain ⟨k', v'⟩ := e
    by_cases h : k' = k
    · subst h
      simp only [erase, if_true, get, hne, if_false]
    · simp only [erase, h, if_false, get, ih]

theorem get_erase_self {m : List (κ × α)} (hm : (m.map Prod.fst).Nodup) (k : κ) :
    get (erase m k) k = none := by
  induction m with
  | nil => rfl
  | cons e m ih =>
    obtain ⟨k', v'⟩ := e
    rw [List.map_cons, List.nodup_cons] at hm
    by_cases h : k' = k
    · subst h
      simp only [erase, if_true]
      rw [← Option.not_isSome_iff_eq_none, get_isSome_iff]
      exact hm.1
    · simp only [erase, h, if_false, get, ih hm.2]

/-- With distinct keys, every entry is what its key looks up. -/
theorem get_of_mem {m : List (κ × α)} (hm : (m.map Prod.fst).Nodup) {k : κ} {v : α}
    (h : (k, v) ∈ m) : get m k = some v := by
  induction m with
  | nil => simp at h
  | cons e m ih =>
    obtain ⟨k', v'⟩ := e
    simp only [List.map_cons, List.nodup_cons] at hm
    rcases List.mem_cons.mp h with he | ht
    · obtain ⟨rfl, rfl⟩ := Prod.mk.inj he
      simp [get]
    · have hne : k' ≠ k := by
        intro he
        exact hm.1 (he ▸ List.mem_map_of_mem (f := Prod.fst) ht)
      simpa only [get, hne, ite_false] using ih hm.2 ht

theorem get_map {β : Type*} (f : α → β) (m : List (κ × α)) (k : κ) :
    get (m.map fun e => (e.1, f e.2)) k = (get m k).map f := by
  induction m with
  | nil => rfl
  | cons e m ih =>
    obtain ⟨k', v⟩ := e
    by_cases hk : k' = k
    · simp only [List.map_cons, get, hk, if_true, Option.map_some]
    · simpa only [List.map_cons, get, hk, if_false] using ih

theorem mem_set {m : List (κ × α)} {k : κ} {v : α} {e : κ × α} (h : e ∈ set m k v) :
    e = (k, v) ∨ e ∈ m := by
  induction m with
  | nil => exact Or.inl (List.mem_singleton.mp h)
  | cons e' m ih =>
    obtain ⟨k', v'⟩ := e'
    by_cases hk : k' = k
    · simp only [set, hk, if_true, List.mem_cons] at h
      rcases h with h | h
      · exact Or.inl h
      · exact Or.inr (List.mem_cons_of_mem _ h)
    · simp only [set, hk, if_false, List.mem_cons] at h
      rcases h with h | h
      · exact Or.inr (h ▸ List.mem_cons_self)
      · exact (ih h).imp_right (List.mem_cons_of_mem _)

end Entries

/-- A map with distinct keys in order of first insertion. -/
@[ext]
structure OrderedMap (κ α : Type*) where
  /-- The entries, oldest key first. -/
  entries : List (κ × α)
  /-- No key has two entries. -/
  nodup : (entries.map Prod.fst).Nodup

namespace OrderedMap

/-- The map without entries. -/
def empty : OrderedMap κ α := ⟨[], List.nodup_nil⟩

/-- The value stored under a key. -/
def get (m : OrderedMap κ α) (k : κ) : Option α := Entries.get m.entries k

/-- Whether a key is stored. -/
def has (m : OrderedMap κ α) (k : κ) : Bool := (m.get k).isSome

/-- Write a value under a key. -/
def set (m : OrderedMap κ α) (k : κ) (v : α) : OrderedMap κ α :=
  ⟨Entries.set m.entries k v, Entries.nodup_set m.nodup k v⟩

/-- Remove a key. -/
def erase (m : OrderedMap κ α) (k : κ) : OrderedMap κ α :=
  ⟨Entries.erase m.entries k, Entries.nodup_erase m.nodup k⟩

/-- Write a list of pairs in order; later pairs win. -/
def ofList (l : List (κ × α)) : OrderedMap κ α := l.foldl (fun m e => m.set e.1 e.2) empty

/-- The stored values in key order. -/
def values (m : OrderedMap κ α) : List α := m.entries.map Prod.snd

@[simp] theorem get_empty (k : κ) : (empty : OrderedMap κ α).get k = none := rfl

@[simp] theorem get_set_self (m : OrderedMap κ α) (k : κ) (v : α) :
    (m.set k v).get k = some v :=
  Entries.get_set_self m.entries k v

theorem get_set_ne (m : OrderedMap κ α) {k k₂ : κ} (v : α) (h : k ≠ k₂) :
    (m.set k v).get k₂ = m.get k₂ :=
  Entries.get_set_ne m.entries v h

theorem get_set (m : OrderedMap κ α) (k k₂ : κ) (v : α) :
    (m.set k v).get k₂ = if k = k₂ then some v else m.get k₂ := by
  by_cases h : k = k₂
  · subst h
    simp
  · simp only [h, ite_false, m.get_set_ne v h]

theorem get_erase_self (m : OrderedMap κ α) (k : κ) : (m.erase k).get k = none :=
  Entries.get_erase_self m.nodup k

theorem get_erase_ne (m : OrderedMap κ α) {k k₂ : κ} (h : k ≠ k₂) :
    (m.erase k).get k₂ = m.get k₂ :=
  Entries.get_erase_ne m.entries h

theorem mem_of_get {m : OrderedMap κ α} {k : κ} {v : α} (h : m.get k = some v) :
    (k, v) ∈ m.entries :=
  Entries.mem_of_get h

private theorem entries_foldl_set (l : List (κ × α)) (m : OrderedMap κ α)
    (h : ((m.entries ++ l).map Prod.fst).Nodup) :
    (l.foldl (fun m e => m.set e.1 e.2) m).entries = m.entries ++ l := by
  induction l generalizing m with
  | nil => exact (List.append_nil _).symm
  | cons e l ih =>
    have hnew : e.1 ∉ m.entries.map Prod.fst := by
      intro hmem
      rw [List.map_append, List.nodup_append] at h
      exact h.2.2 e.1 hmem e.1 List.mem_cons_self rfl
    have hset : (m.set e.1 e.2).entries = m.entries ++ [e] := Entries.set_of_not_mem hnew e.2
    rw [List.foldl_cons, ih _ (by rwa [hset, List.append_assoc]), hset, List.append_assoc]
    rfl

/-- Writing a map's own entries again gives the map. -/
theorem ofList_entries (m : OrderedMap κ α) : ofList m.entries = m := by
  ext1
  exact entries_foldl_set m.entries empty m.nodup

/-- Whatever holds of every pair written holds of every value looked up. -/
theorem get_ofList {l : List (κ × α)} {k : κ} {v : α} (h : (ofList l).get k = some v) :
    (k, v) ∈ l := by
  suffices hs : ∀ m : OrderedMap κ α, (l.foldl (fun m e => m.set e.1 e.2) m).get k = some v →
      (k, v) ∈ l ∨ m.get k = some v by
    rcases hs empty h with hl | he
    · exact hl
    · simp at he
  clear h
  induction l with
  | nil => intro m h; exact Or.inr h
  | cons e l ih =>
    intro m h
    rcases ih (m.set e.1 e.2) h with hl | hset
    · exact Or.inl (List.mem_cons_of_mem _ hl)
    · rw [get_set] at hset
      by_cases he : e.1 = k
      · simp only [he, ite_true, Option.some.injEq] at hset
        exact Or.inl (List.mem_cons.mpr (Or.inl (Prod.ext he.symm hset.symm)))
      · simp only [he, ite_false] at hset
        exact Or.inr hset

end OrderedMap

end CoolSdk
