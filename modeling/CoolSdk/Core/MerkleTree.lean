import Mathlib.Algebra.Group.Nat.Defs
import Mathlib.Data.Nat.Log
import Mathlib.Data.Set.Function

/-!
# Merkle tree heads and audit paths

The head of a list of leaves splits the list at the largest power of two below its length.
An audit path lists the siblings from a leaf up to the head, and the turns of a leaf say on
which side the climb stands at each of them. Turns are defined from the top of the tree; the
level-by-level recurrences proved here are what a verifier that climbs from the bottom uses.
-/

namespace CoolSdk.MerkleTree

universe u

/-- The largest power of two below a length of two or more. -/
def split (n : Nat) : Nat := 2 ^ Nat.log 2 (n - 1)

theorem split_pos (n : Nat) : 0 < split n := Nat.two_pow_pos _

theorem split_lt {n : Nat} (h : 2 ≤ n) : split n < n := by
  have hle := Nat.pow_log_le_self 2 (x := n - 1) (by omega)
  unfold split
  omega

theorem le_two_mul_split (n : Nat) : n ≤ 2 * split n := by
  have hlt := Nat.lt_pow_succ_log_self (b := 2) (by omega) (n - 1)
  rw [Nat.pow_succ] at hlt
  unfold split
  omega

/-- A power of two is the split of every length it is just below. -/
theorem split_eq {n k : Nat} (hlt : 2 ^ k < n) (hle : n ≤ 2 * 2 ^ k) : split n = 2 ^ k := by
  have hlog : Nat.log 2 (n - 1) = k := by
    apply Nat.log_eq_of_pow_le_of_lt_pow
    · omega
    · rw [Nat.pow_succ]
      omega
  rw [split, hlog]

/-- Lengths between a split and its double split there. -/
theorem split_eq_split {m n : Nat} (hlt : split n < m) (hle : m ≤ n) : split m = split n := by
  have hdouble := le_two_mul_split n
  exact split_eq hlt (by unfold split at hdouble; omega)

/-- Above two leaves the split is even, and half of it is the split one level up. -/
theorem split_eq_two_mul {n : Nat} (h : 3 ≤ n) : split n = 2 * split ((n + 1) / 2) := by
  have hlog : Nat.log 2 (n - 1) = Nat.log 2 ((n - 1) / 2) + 1 :=
    Nat.log_of_one_lt_of_le (by omega) (by omega)
  have hhalf : (n + 1) / 2 - 1 = (n - 1) / 2 := by omega
  rw [split, split, hlog, hhalf, Nat.pow_succ, Nat.mul_comm]

section

variable {α : Type u} (node : α → α → α) (empty : α)

/-- The head of a list of leaves. -/
def root (l : List α) : α :=
  if _ : 2 ≤ l.length then
    node (root (l.take (split l.length))) (root (l.drop (split l.length)))
  else l.headD empty
termination_by l.length
decreasing_by
  · have := split_lt ‹2 ≤ l.length›
    rw [List.length_take]
    omega
  · have := split_pos l.length
    rw [List.length_drop]
    omega

@[simp] theorem root_nil : root node empty [] = empty := by
  rw [root]
  rfl

@[simp] theorem root_singleton (a : α) : root node empty [a] = a := by
  rw [root]
  rfl

/-- The head of two leaves or more joins the heads of both sides of the split. -/
theorem root_eq {l : List α} (h : 2 ≤ l.length) :
    root node empty l = node (root node empty (l.take (split l.length)))
      (root node empty (l.drop (split l.length))) := by
  rw [root, dif_pos h]

/-- The pairs that are joined on the way to the head. -/
def joins (l : List α) : List (α × α) :=
  if _ : 2 ≤ l.length then
    (root node empty (l.take (split l.length)), root node empty (l.drop (split l.length))) ::
      (joins (l.take (split l.length)) ++ joins (l.drop (split l.length)))
  else []
termination_by l.length
decreasing_by
  · have := split_lt ‹2 ≤ l.length›
    rw [List.length_take]
    omega
  · have := split_pos l.length
    rw [List.length_drop]
    omega

theorem mem_joins_top {l : List α} (h : 2 ≤ l.length) :
    (root node empty (l.take (split l.length)), root node empty (l.drop (split l.length))) ∈
      joins node empty l := by
  rw [joins, dif_pos h]
  exact List.mem_cons_self

theorem mem_joins_left {l : List α} (h : 2 ≤ l.length) {p : α × α}
    (hp : p ∈ joins node empty (l.take (split l.length))) : p ∈ joins node empty l := by
  rw [joins, dif_pos h]
  exact List.mem_cons_of_mem _ (List.mem_append_left _ hp)

theorem mem_joins_right {l : List α} (h : 2 ≤ l.length) {p : α × α}
    (hp : p ∈ joins node empty (l.drop (split l.length))) : p ∈ joins node empty l := by
  rw [joins, dif_pos h]
  exact List.mem_cons_of_mem _ (List.mem_append_right _ hp)

/-- The siblings of a leaf, from the leaf up. -/
def auditPath (l : List α) (i : Nat) : List α :=
  if _ : 2 ≤ l.length then
    if i < split l.length then
      auditPath (l.take (split l.length)) i ++ [root node empty (l.drop (split l.length))]
    else
      auditPath (l.drop (split l.length)) (i - split l.length) ++
        [root node empty (l.take (split l.length))]
  else []
termination_by l.length
decreasing_by
  · have := split_lt ‹2 ≤ l.length›
    rw [List.length_take]
    omega
  · have := split_pos l.length
    rw [List.length_drop]
    omega

end

/-! ## Turns -/

/-- Which child a climb comes from. -/
inductive Side
  | left
  | right
  deriving DecidableEq, Repr

/-- The turns of the climb from a leaf, from the leaf up. -/
def turns (i n : Nat) : List Side :=
  if _ : 2 ≤ n then
    if i < split n then turns i (split n) ++ [.left]
    else turns (i - split n) (n - split n) ++ [.right]
  else []
termination_by n
decreasing_by
  · exact split_lt ‹2 ≤ n›
  · have := split_pos n
    omega

theorem turns_of_lt_split {i n : Nat} (h : 2 ≤ n) (hi : i < split n) :
    turns i n = turns i (split n) ++ [.left] := by
  rw [turns, dif_pos h, if_pos hi]

theorem turns_of_split_le {i n : Nat} (h : 2 ≤ n) (hi : split n ≤ i) :
    turns i n = turns (i - split n) (n - split n) ++ [.right] := by
  rw [turns, dif_pos h, if_neg (Nat.not_lt.mpr hi)]

@[simp] theorem turns_one (i : Nat) : turns i 1 = [] := by
  rw [turns]
  rfl

/-- One level up from the bottom: an odd node is a right child, an even node with a successor a
left child, and a last even node moves up as it is. -/
theorem turns_eq {i n : Nat} (h : 2 ≤ n) (hi : i < n) :
    turns i n = (if i % 2 = 1 then [.right] else if i + 1 < n then [.left] else []) ++
      turns (i / 2) ((n + 1) / 2) := by
  induction n using Nat.strong_induction_on generalizing i with
  | _ n ih =>
    have hlt := split_lt h
    by_cases htwo : n = 2
    · subst htwo
      have hsplit : split 2 = 1 := by decide
      rcases Nat.lt_or_ge i 1 with hz | hz
      · obtain rfl : i = 0 := by omega
        rw [turns_of_lt_split h (by omega), hsplit]
        simp
      · obtain rfl : i = 1 := by omega
        rw [turns_of_split_le h (by omega), hsplit]
        simp
    · have hhalf := split_eq_two_mul (n := n) (by omega)
      have hpos := split_pos ((n + 1) / 2)
      by_cases hleft : i < split n
      · rw [turns_of_lt_split h hleft, ih (split n) hlt (by omega) hleft,
          turns_of_lt_split (n := (n + 1) / 2) (by omega) (by omega)]
        have hup : (split n + 1) / 2 = split ((n + 1) / 2) := by omega
        have hodd : i + 1 < split n ∨ i % 2 = 1 := by omega
        rw [hup, List.append_assoc]
        rcases hodd with hodd | hodd
        · simp only [hodd, if_true, show i + 1 < n by omega]
        · simp only [hodd, if_true]
      · rw [Nat.not_lt] at hleft
        rw [turns_of_split_le h hleft,
          turns_of_split_le (n := (n + 1) / 2) (by omega) (by omega)]
        by_cases hone : n - split n = 1
        · have hdown : i - split n = 0 ∧ i / 2 - split ((n + 1) / 2) = 0 := by omega
          have hup : (n + 1) / 2 - split ((n + 1) / 2) = 1 := by omega
          rw [hone, hup, turns_one, turns_one, if_neg (by omega), if_neg (by omega)]
          rfl
        · rw [ih (n - split n) (by omega) (by omega) (by omega)]
          have hpar : (i - split n) % 2 = i % 2 := by omega
          have hlast : i - split n + 1 < n - split n ↔ i + 1 < n := by omega
          have hhalfi : (i - split n) / 2 = i / 2 - split ((n + 1) / 2) := by omega
          have hhalfn : (n - split n + 1) / 2 = (n + 1) / 2 - split ((n + 1) / 2) := by omega
          simp only [hpar, hlast, hhalfi, hhalfn, List.append_assoc]

/-! ## Climbing -/

section

variable {α : Type u}

/-- A node and its sibling in the order they are joined. -/
def Side.pair (side : Side) (a sibling : α) : α × α :=
  match side with
  | .left => (a, sibling)
  | .right => (sibling, a)

variable (node : α → α → α) (empty : α)

/-- Climb from a node along turns and siblings. -/
def climb (a : α) (path : List (Side × α)) : α :=
  path.foldl (fun a step => Function.uncurry node (step.1.pair a step.2)) a

/-- The pairs that are joined on a climb. -/
def climbs (a : α) : List (Side × α) → List (α × α)
  | [] => []
  | (side, sibling) :: path =>
    side.pair a sibling :: climbs (Function.uncurry node (side.pair a sibling)) path

@[simp] theorem climb_nil (a : α) : climb node a [] = a := rfl

@[simp] theorem climb_cons (a : α) (side : Side) (sibling : α) (path : List (Side × α)) :
    climb node a ((side, sibling) :: path) =
      climb node (Function.uncurry node (side.pair a sibling)) path := rfl

@[simp] theorem climb_concat (a : α) (path : List (Side × α)) (side : Side) (sibling : α) :
    climb node a (path ++ [(side, sibling)]) =
      Function.uncurry node (side.pair (climb node a path) sibling) := by
  simp [climb]

theorem climbs_append (a : α) (path above : List (Side × α)) :
    climbs node a (path ++ above) = climbs node a path ++ climbs node (climb node a path) above := by
  induction path generalizing a with
  | nil => rfl
  | cons step path ih => rw [List.cons_append, climbs, climbs, ih, List.cons_append, climb_cons]

theorem mem_climbs_append {a : α} {path : List (Side × α)} (above : List (Side × α)) {p : α × α}
    (hp : p ∈ climbs node a path) : p ∈ climbs node a (path ++ above) := by
  rw [climbs_append]
  exact List.mem_append_left _ hp

theorem mem_climbs_concat (a : α) (path : List (Side × α)) (side : Side) (sibling : α) :
    side.pair (climb node a path) sibling ∈ climbs node a (path ++ [(side, sibling)]) := by
  rw [climbs_append]
  exact List.mem_append_right _ List.mem_cons_self

variable {node empty}

/-- An audit path has a sibling for every turn. -/
theorem length_auditPath {l : List α} {i : Nat} :
    (auditPath node empty l i).length = (turns i l.length).length := by
  induction hn : l.length using Nat.strong_induction_on generalizing l i with
  | _ n ih =>
    subst hn
    rw [auditPath, turns]
    split
    · have hlt := split_lt ‹2 ≤ l.length›
      have hpos := split_pos l.length
      split
      · rw [List.length_append, List.length_append, List.length_singleton, List.length_singleton,
          ih _ (by rw [List.length_take]; omega) rfl, List.length_take, Nat.min_eq_left hlt.le]
      · rw [List.length_append, List.length_append, List.length_singleton, List.length_singleton,
          ih _ (by rw [List.length_drop]; omega) rfl, List.length_drop]
    · rfl

/-- Climbing from a leaf along its audit path reaches the head. -/
theorem climb_auditPath {l : List α} {i : Nat} {a : α} (h : l[i]? = some a) :
    climb node a ((turns i l.length).zip (auditPath node empty l i)) = root node empty l := by
  induction hn : l.length using Nat.strong_induction_on generalizing l i with
  | _ n ih =>
    subst hn
    obtain ⟨hi, hget⟩ := List.getElem?_eq_some_iff.mp h
    by_cases htwo : 2 ≤ l.length
    · have hlt := split_lt htwo
      have hpos := split_pos l.length
      rw [root_eq node empty htwo, auditPath, dif_pos htwo]
      by_cases hleft : i < split l.length
      · have htake : (l.take (split l.length)).length = split l.length := by
          rw [List.length_take, Nat.min_eq_left hlt.le]
        have hrest := ih _ (by omega) (l := l.take (split l.length)) (i := i)
          (by rw [List.getElem?_take_of_lt hleft, h]) rfl
        rw [htake] at hrest
        rw [turns_of_lt_split htwo hleft, if_pos hleft, List.zip_append, List.zip_cons_cons,
          List.zip_nil_right, climb_concat, hrest]
        · rfl
        · rw [length_auditPath, htake]
      · rw [Nat.not_lt] at hleft
        have hdrop : (l.drop (split l.length)).length = l.length - split l.length :=
          List.length_drop
        have hrest := ih _ (by omega) (l := l.drop (split l.length)) (i := i - split l.length)
          (by rw [List.getElem?_drop, Nat.add_sub_cancel' hleft, h]) rfl
        rw [hdrop] at hrest
        rw [turns_of_split_le htwo hleft, if_neg (Nat.not_lt.mpr hleft), List.zip_append,
          List.zip_cons_cons, List.zip_nil_right, climb_concat, hrest]
        · rfl
        · rw [length_auditPath, hdrop]
    · obtain ⟨b, rfl⟩ : ∃ b, l = [b] := List.length_eq_one_iff.mp (by omega)
      obtain rfl : i = 0 := by simpa using hi
      simp at h
      simp [h]

/-- A path as long as turns that end in one ends in a sibling for it. -/
theorem exists_concat_of_length {path : List α} {ts : List Side} {side : Side}
    (h : path.length = (ts ++ [side]).length) :
    ∃ below sibling, path = below ++ [sibling] ∧ below.length = ts.length ∧
      (ts ++ [side]).zip path = ts.zip below ++ [(side, sibling)] := by
  rcases List.eq_nil_or_concat path with rfl | ⟨below, sibling, rfl⟩
  · simp at h
  · simp only [List.concat_eq_append, List.length_append, List.length_singleton,
      Nat.add_right_cancel_iff] at h
    refine ⟨below, sibling, List.concat_eq_append, h, ?_⟩
    rw [List.concat_eq_append, List.zip_append h.symm]
    rfl

/-- Where the pairs joined are told apart by their join, a climb that reaches the head started
from the leaf and used its audit path. -/
theorem climb_sound {l : List α} {i : Nat} (hi : i < l.length) {a : α} {path : List α}
    (hlength : path.length = (turns i l.length).length)
    (hinj : Set.InjOn (Function.uncurry node)
      ({p | p ∈ joins node empty l} ∪ {p | p ∈ climbs node a ((turns i l.length).zip path)}))
    (h : climb node a ((turns i l.length).zip path) = root node empty l) :
    l[i]? = some a ∧ path = auditPath node empty l i := by
  induction hn : l.length using Nat.strong_induction_on generalizing l i path with
  | _ n ih =>
    subst hn
    by_cases htwo : 2 ≤ l.length
    · have hlt := split_lt htwo
      have hpos := split_pos l.length
      rw [root_eq node empty htwo] at h
      rw [auditPath, dif_pos htwo]
      by_cases hleft : i < split l.length
      · have htake : (l.take (split l.length)).length = split l.length := by
          rw [List.length_take, Nat.min_eq_left hlt.le]
        rw [turns_of_lt_split htwo hleft] at hlength hinj h
        obtain ⟨below, sibling, rfl, hbelow, hzip⟩ := exists_concat_of_length hlength
        rw [hzip] at hinj h
        rw [climb_concat] at h
        have hpair := hinj (.inr (mem_climbs_concat node a _ .left sibling))
          (.inl (mem_joins_top node empty htwo)) h
        obtain ⟨hdown, hsibling⟩ := Prod.mk.inj hpair
        have hrest := ih _ (by omega) (l := l.take (split l.length)) (i := i) (by omega)
          (show below.length = _ by rw [htake, hbelow]) ?_ (by rw [htake, hdown]) rfl
        · obtain ⟨hget, hpath⟩ := hrest
          rw [List.getElem?_take_of_lt hleft] at hget
          exact ⟨hget, by rw [if_pos hleft, hpath, hsibling]⟩
        · rw [htake]
          refine hinj.mono (Set.union_subset_union ?_ fun p => mem_climbs_append node _)
          exact fun p hp => mem_joins_left node empty htwo hp
      · rw [Nat.not_lt] at hleft
        have hdrop : (l.drop (split l.length)).length = l.length - split l.length :=
          List.length_drop
        rw [turns_of_split_le htwo hleft] at hlength hinj h
        obtain ⟨below, sibling, rfl, hbelow, hzip⟩ := exists_concat_of_length hlength
        rw [hzip] at hinj h
        rw [climb_concat] at h
        have hpair := hinj (.inr (mem_climbs_concat node a _ .right sibling))
          (.inl (mem_joins_top node empty htwo)) h
        obtain ⟨hsibling, hdown⟩ := Prod.mk.inj hpair
        have hrest := ih _ (by omega) (l := l.drop (split l.length)) (i := i - split l.length)
          (by omega) (show below.length = _ by rw [hdrop, hbelow]) ?_ (by rw [hdrop, hdown]) rfl
        · obtain ⟨hget, hpath⟩ := hrest
          rw [List.getElem?_drop, Nat.add_sub_cancel' hleft] at hget
          exact ⟨hget, by rw [if_neg (Nat.not_lt.mpr hleft), hpath, hsibling]⟩
        · rw [hdrop]
          refine hinj.mono (Set.union_subset_union ?_ fun p => mem_climbs_append node _)
          exact fun p hp => mem_joins_right node empty htwo hp
    · obtain ⟨b, rfl⟩ : ∃ b, l = [b] := List.length_eq_one_iff.mp (by omega)
      obtain rfl : i = 0 := by simpa using hi
      simp only [List.length_singleton, turns_one, List.length_nil,
        List.length_eq_zero_iff] at hlength
      subst hlength
      rw [auditPath]
      simpa using h.symm

/-- Where the pairs joined are told apart by their join, lists of one length with one head are
one list. -/
theorem root_inj {l l' : List α} (hlength : l.length = l'.length)
    (hinj : Set.InjOn (Function.uncurry node)
      ({p | p ∈ joins node empty l} ∪ {p | p ∈ joins node empty l'}))
    (h : root node empty l = root node empty l') : l = l' := by
  induction hn : l.length using Nat.strong_induction_on generalizing l l' with
  | _ n ih =>
    subst hn
    by_cases htwo : 2 ≤ l.length
    · have htwo' : 2 ≤ l'.length := hlength ▸ htwo
      have hlt := split_lt htwo
      have hpos := split_pos l.length
      rw [root_eq node empty htwo, root_eq node empty htwo'] at h
      have hpair := hinj (.inl (mem_joins_top node empty htwo))
        (.inr (mem_joins_top node empty htwo')) h
      obtain ⟨hleft, hright⟩ := Prod.mk.inj hpair
      rw [← hlength] at hleft hright
      have htake : l.take (split l.length) = l'.take (split l.length) := by
        refine ih _ ?_ ?_ (hinj.mono (Set.union_subset_union ?_ ?_)) hleft rfl
        · rw [List.length_take]
          omega
        · rw [List.length_take, List.length_take, hlength]
        · exact fun p hp => mem_joins_left node empty htwo hp
        · exact fun p hp => mem_joins_left node empty htwo' (hlength ▸ hp)
      have hdrop : l.drop (split l.length) = l'.drop (split l.length) := by
        refine ih _ ?_ ?_ (hinj.mono (Set.union_subset_union ?_ ?_)) hright rfl
        · rw [List.length_drop]
          omega
        · rw [List.length_drop, List.length_drop, hlength]
        · exact fun p hp => mem_joins_right node empty htwo hp
        · exact fun p hp => mem_joins_right node empty htwo' (hlength ▸ hp)
      rw [← List.take_append_drop (split l.length) l, htake, hdrop, List.take_append_drop]
    · rcases l with _ | ⟨a, l⟩
      · exact (List.length_eq_zero_iff.mp hlength.symm).symm
      · obtain rfl : l = [] := by simpa using htwo
        obtain ⟨b, rfl⟩ := List.length_eq_one_iff.mp hlength.symm
        simpa using h

/-- A property of every join and every leaf holds of the head. -/
theorem root_closed {P : α → Prop} (hnode : ∀ a b, P (node a b)) (hempty : P empty) {l : List α}
    (hl : ∀ a ∈ l, P a) : P (root node empty l) := by
  by_cases htwo : 2 ≤ l.length
  · rw [root_eq node empty htwo]
    exact hnode _ _
  · match l with
    | [] => rwa [root_nil]
    | [a] =>
      rw [root_singleton]
      exact hl a List.mem_cons_self
    | _ :: _ :: _ => simp at htwo

/-- A property of every join and every leaf holds along an audit path. -/
theorem auditPath_closed {P : α → Prop} (hnode : ∀ a b, P (node a b)) (hempty : P empty)
    {l : List α} (hl : ∀ a ∈ l, P a) {i : Nat} : ∀ a ∈ auditPath node empty l i, P a := by
  induction hn : l.length using Nat.strong_induction_on generalizing l i with
  | _ n ih =>
    subst hn
    rw [auditPath]
    split
    · have hlt := split_lt ‹2 ≤ l.length›
      have hpos := split_pos l.length
      have htake : ∀ a ∈ l.take (split l.length), P a := fun a ha => hl a (List.mem_of_mem_take ha)
      have hdrop : ∀ a ∈ l.drop (split l.length), P a := fun a ha => hl a (List.mem_of_mem_drop ha)
      split
      · rw [List.forall_mem_append, List.forall_mem_singleton]
        exact ⟨ih _ (by rw [List.length_take]; omega) htake rfl, root_closed hnode hempty hdrop⟩
      · rw [List.forall_mem_append, List.forall_mem_singleton]
        exact ⟨ih _ (by rw [List.length_drop]; omega) hdrop rfl, root_closed hnode hempty htake⟩
    · exact fun a ha => absurd ha List.not_mem_nil

end

end CoolSdk.MerkleTree
