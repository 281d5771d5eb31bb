import Mathlib.Data.List.Basic

/-!
# Items and takers

Items are put and takers ask for one, in any order; whichever comes first waits for the other.
The k-th taker gets the k-th item, whatever the interleaving.
-/

namespace CoolSdk

universe u v

/-- The items that wait for a taker, and the takers that wait for an item. -/
structure Rendezvous (ω : Type u) (α : Type v) where
  queue : List α := []
  waiting : List ω := []

namespace Rendezvous

variable {ω : Type u} {α : Type v}

/-- An item is put: for the first taker that waits, if there is one. -/
def put (r : Rendezvous ω α) (a : α) : Rendezvous ω α × List (ω × α) :=
  match r.waiting with
  | w :: waiting => ({ r with waiting }, [(w, a)])
  | [] => ({ r with queue := r.queue ++ [a] }, [])

/-- Items are put one after the other. -/
def putAll (r : Rendezvous ω α) : List α → Rendezvous ω α × List (ω × α)
  | [] => (r, [])
  | a :: as => (((r.put a).1.putAll as).1, (r.put a).2 ++ ((r.put a).1.putAll as).2)

/-- A taker asks: for the first item that waits, if there is one. -/
def take (r : Rendezvous ω α) (w : ω) : Rendezvous ω α × List (ω × α) :=
  match r.queue with
  | a :: queue => ({ r with queue }, [(w, a)])
  | [] => ({ r with waiting := r.waiting ++ [w] }, [])

/-- Who has met of the takers and the items that came, each side in its order, and who waits. -/
structure Pairs (takers : List ω) (items : List α) (r : Rendezvous ω α) (met : List (ω × α)) :
    Prop where
  takers : takers = met.map Prod.fst ++ r.waiting
  items : items = met.map Prod.snd ++ r.queue
  one_side : r.queue = [] ∨ r.waiting = []

variable {takers : List ω} {items : List α} {r : Rendezvous ω α} {met : List (ω × α)}

theorem pairs_empty : Pairs [] [] ({} : Rendezvous ω α) [] := ⟨rfl, rfl, .inl rfl⟩

theorem Pairs.put (h : Pairs takers items r met) (a : α) :
    Pairs takers (items ++ [a]) (r.put a).1 (met ++ (r.put a).2) := by
  obtain ⟨rfl, rfl, hone⟩ := h
  rw [Rendezvous.put]
  split
  · rename_i w waiting hw
    have hqueue : r.queue = [] := hone.resolve_right (by simp [hw])
    exact ⟨by simp [hw], by simp [hqueue], .inl hqueue⟩
  · rename_i hw
    exact ⟨by simp [hw], by simp, .inr hw⟩

theorem Pairs.putAll (h : Pairs takers items r met) (as : List α) :
    Pairs takers (items ++ as) (r.putAll as).1 (met ++ (r.putAll as).2) := by
  induction as generalizing items r met with
  | nil =>
    rw [Rendezvous.putAll, List.append_nil, List.append_nil]
    exact h
  | cons a as ih =>
    rw [Rendezvous.putAll, List.append_cons, ← List.append_assoc]
    exact ih (h.put a)

theorem Pairs.take (h : Pairs takers items r met) (w : ω) :
    Pairs (takers ++ [w]) items (r.take w).1 (met ++ (r.take w).2) := by
  obtain ⟨rfl, rfl, hone⟩ := h
  rw [Rendezvous.take]
  split
  · rename_i a queue hq
    have hwaiting : r.waiting = [] := hone.resolve_left (by simp [hq])
    exact ⟨by simp [hwaiting], by simp [hq], .inr hwaiting⟩
  · rename_i hq
    exact ⟨by simp, by simp [hq], .inl hq⟩

/-- Those who have met are the takers and the items in their orders, as far as both came. -/
theorem Pairs.met_eq (h : Pairs takers items r met) : met = takers.zip items := by
  obtain ⟨rfl, rfl, hone⟩ := h
  have hmet : met = (met.map Prod.fst).zip (met.map Prod.snd) := List.zip_of_prod rfl rfl
  rw [List.zip_append (by simp), ← hmet]
  rcases hone with hone | hone <;> simp [hone]

/-- The taker that asks meets the item at its place, if that has come. -/
theorem Pairs.take_eq (h : Pairs takers items r met) (w : ω) :
    (r.take w).2 = (items[takers.length]?).toList.map fun a => (w, a) := by
  obtain ⟨rfl, rfl, hone⟩ := h
  rw [Rendezvous.take]
  split
  · rename_i a queue hq
    have hwaiting : r.waiting = [] := hone.resolve_left (by simp [hq])
    simp [hwaiting, hq]
  · rename_i hq
    simp [hq]

/-- The items that are put meet the takers at their places. -/
theorem Pairs.putAll_eq (h : Pairs takers items r met) (as : List α) :
    (r.putAll as).2 = (takers.zip (items ++ as)).drop (min takers.length items.length) := by
  have hlength : (takers.zip items).length = min takers.length items.length := List.length_zip
  rw [← (h.putAll as).met_eq, ← hlength, ← h.met_eq, List.drop_left]

end Rendezvous

end CoolSdk
