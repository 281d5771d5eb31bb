import CoolSdk.Core.MerkleTree

/-!
# Consistency of two Merkle tree heads

The seam of a tree at a size is the edge between its first leaves and the rest. One subtree
ends at the seam and lies whole in both trees; from it, the climb to the newer head takes
every turn, and the climb to the older head only the right ones. The seam is defined from the
top of the tree, and below the lowest turn it is an ordinary climb, which is how a verifier
walks it from the bottom.
-/

namespace CoolSdk.MerkleTree

universe u

/-- The turns from the subtree that ends at the seam up to the head of the newer tree. -/
def seamTurns (m n : Nat) : List Side :=
  if _ : m < n ∧ 2 ≤ n then
    if m ≤ split n then seamTurns m (split n) ++ [.left]
    else seamTurns (m - split n) (n - split n) ++ [.right]
  else []
termination_by n
decreasing_by
  · exact split_lt (And.right ‹m < n ∧ 2 ≤ n›)
  · have := split_pos n
    omega

@[simp] theorem seamTurns_self (n : Nat) : seamTurns n n = [] := by
  rw [seamTurns, dif_neg (by omega)]

theorem seamTurns_of_le_split {m n : Nat} (h : m < n) (hn : 2 ≤ n) (hm : m ≤ split n) :
    seamTurns m n = seamTurns m (split n) ++ [.left] := by
  rw [seamTurns, dif_pos ⟨h, hn⟩, if_pos hm]

theorem seamTurns_of_split_lt {m n : Nat} (h : m < n) (hm : split n < m) :
    seamTurns m n = seamTurns (m - split n) (n - split n) ++ [.right] := by
  rw [seamTurns, dif_pos (by have := split_pos n; omega), if_neg (Nat.not_le.mpr hm)]

/-- An even seam is the same seam one level up. -/
theorem seamTurns_of_even {m n : Nat} (h : m < n) (hpos : 0 < m) (heven : m % 2 = 0) :
    seamTurns m n = seamTurns (m / 2) ((n + 1) / 2) := by
  induction n using Nat.strong_induction_on generalizing m with
  | _ n ih =>
    have hlt := split_lt (n := n) (by omega)
    have hhalf := split_eq_two_mul (n := n) (by omega)
    have hup := split_pos ((n + 1) / 2)
    rcases Nat.lt_trichotomy m (split n) with hm | hm | hm
    · rw [seamTurns_of_le_split h (by omega) hm.le, ih (split n) hlt hm hpos heven,
        seamTurns_of_le_split (n := (n + 1) / 2) (by omega) (by omega) (by omega)]
      have hlevel : (split n + 1) / 2 = split ((n + 1) / 2) := by omega
      rw [hlevel]
    · rw [seamTurns_of_le_split h (by omega) hm.le,
        seamTurns_of_le_split (n := (n + 1) / 2) (by omega) (by omega) (by omega)]
      have hlevel : m / 2 = split ((n + 1) / 2) := by omega
      rw [hlevel, hm, seamTurns_self, seamTurns_self]
    · rw [seamTurns_of_split_lt h hm, ih (n - split n) (by omega) (by omega) (by omega) (by omega),
        seamTurns_of_split_lt (n := (n + 1) / 2) (by omega) (by omega)]
      have hlevelm : (m - split n) / 2 = m / 2 - split ((n + 1) / 2) := by omega
      have hleveln : (n - split n + 1) / 2 = (n + 1) / 2 - split ((n + 1) / 2) := by omega
      rw [hlevelm, hleveln]

/-- At an odd seam the climb starts at the last leaf before it. -/
theorem seamTurns_of_odd {m n : Nat} (h : m < n) (hodd : m % 2 = 1) :
    seamTurns m n = turns (m - 1) n := by
  induction n using Nat.strong_induction_on generalizing m with
  | _ n ih =>
    have hlt := split_lt (n := n) (by omega)
    rcases Nat.lt_trichotomy m (split n) with hm | hm | hm
    · rw [seamTurns_of_le_split h (by omega) hm.le, ih (split n) hlt hm hodd,
        turns_of_lt_split (n := n) (by omega) (by omega)]
    · have hone : split n = 1 := by
        rcases Nat.lt_or_ge n 3 with hn | hn
        · have hpos := split_pos n
          omega
        · have hhalf := split_eq_two_mul hn
          omega
      rw [seamTurns_of_le_split h (by omega) hm.le,
        turns_of_lt_split (n := n) (by omega) (by omega), hm, hone, seamTurns_self, turns_one]
    · have hpos := split_pos n
      have hhalf := split_eq_two_mul (n := n) (by omega)
      rw [seamTurns_of_split_lt h hm, ih (n - split n) (by omega) (by omega) (by omega),
        turns_of_split_le (n := n) (by omega) (by omega), Nat.sub_right_comm]

/-- Only at a power of two does the subtree that ends at the seam start the tree. -/
theorem seamTurns_left_iff {m n : Nat} (hpos : 0 < m) (h : m < n) :
    (∀ side ∈ seamTurns m n, side = .left) ↔ m.isPowerOfTwo := by
  induction n using Nat.strong_induction_on generalizing m with
  | _ n ih =>
    have hlt := split_lt (n := n) (by omega)
    rcases Nat.lt_trichotomy m (split n) with hm | hm | hm
    · rw [seamTurns_of_le_split h (by omega) hm.le, ← ih (split n) hlt hpos hm]
      refine ⟨fun hall side hs => hall side (List.mem_append_left _ hs), fun hall side hs => ?_⟩
      exact (List.mem_append.mp hs).elim (hall side) List.mem_singleton.mp
    · rw [seamTurns_of_le_split h (by omega) hm.le, hm, seamTurns_self]
      exact ⟨fun _ => ⟨_, rfl⟩, fun _ => by simp⟩
    · rw [seamTurns_of_split_lt h hm]
      refine ⟨fun hall => absurd (hall .right (by simp)) nofun, ?_⟩
      rintro ⟨k, rfl⟩
      have hsplit := split_eq h ((le_two_mul_split n).trans (by omega))
      omega

section

variable {α : Type u} (node : α → α → α) (empty : α)

/-- The head of the subtree that ends at the seam. -/
def seamNode (l : List α) (m : Nat) : α :=
  if _ : m < l.length ∧ 2 ≤ l.length then
    if m ≤ split l.length then seamNode (l.take (split l.length)) m
    else seamNode (l.drop (split l.length)) (m - split l.length)
  else root node empty l
termination_by l.length
decreasing_by
  · have := split_lt (And.right ‹m < l.length ∧ 2 ≤ l.length›)
    rw [List.length_take]
    omega
  · have := split_pos l.length
    rw [List.length_drop]
    omega

/-- The siblings of the climb from the seam, from the bottom up. -/
def seamPath (l : List α) (m : Nat) : List α :=
  if _ : m < l.length ∧ 2 ≤ l.length then
    if m ≤ split l.length then
      seamPath (l.take (split l.length)) m ++ [root node empty (l.drop (split l.length))]
    else
      seamPath (l.drop (split l.length)) (m - split l.length) ++
        [root node empty (l.take (split l.length))]
  else []
termination_by l.length
decreasing_by
  · have := split_lt (And.right ‹m < l.length ∧ 2 ≤ l.length›)
    rw [List.length_take]
    omega
  · have := split_pos l.length
    rw [List.length_drop]
    omega

end

section

variable {α : Type u}

/-- The part of a climb that stays among the older leaves. -/
def older (path : List (Side × α)) : List (Side × α) := path.filter (·.1 = .right)

@[simp] theorem older_nil : older ([] : List (Side × α)) = [] := rfl

@[simp] theorem older_cons_left (sibling : α) (path : List (Side × α)) :
    older ((.left, sibling) :: path) = older path := rfl

@[simp] theorem older_cons_right (sibling : α) (path : List (Side × α)) :
    older ((.right, sibling) :: path) = (.right, sibling) :: older path := rfl

@[simp] theorem older_concat_left (path : List (Side × α)) (sibling : α) :
    older (path ++ [(.left, sibling)]) = older path := by
  simp [older]

@[simp] theorem older_concat_right (path : List (Side × α)) (sibling : α) :
    older (path ++ [(.right, sibling)]) = older path ++ [(.right, sibling)] := by
  simp [older]

variable {node : α → α → α} {empty : α}

theorem length_seamPath {l : List α} {m : Nat} :
    (seamPath node empty l m).length = (seamTurns m l.length).length := by
  induction hn : l.length using Nat.strong_induction_on generalizing l m with
  | _ n ih =>
    subst hn
    rw [seamPath, seamTurns]
    split
    · rename_i h
      have hlt := split_lt h.2
      have hpos := split_pos l.length
      split
      · rw [List.length_append, List.length_append, List.length_singleton, List.length_singleton,
          ih _ (by rw [List.length_take]; omega) rfl, List.length_take, Nat.min_eq_left hlt.le]
      · rw [List.length_append, List.length_append, List.length_singleton, List.length_singleton,
          ih _ (by rw [List.length_drop]; omega) rfl, List.length_drop]
    · rfl

/-- The climb from the seam of a tree reaches both heads. -/
theorem climb_seamPath {l : List α} {m : Nat} (hpos : 0 < m) (hm : m ≤ l.length) :
    climb node (seamNode node empty l m)
        (older ((seamTurns m l.length).zip (seamPath node empty l m))) =
      root node empty (l.take m) ∧
    climb node (seamNode node empty l m)
        ((seamTurns m l.length).zip (seamPath node empty l m)) = root node empty l := by
  induction hn : l.length using Nat.strong_induction_on generalizing l m with
  | _ n ih =>
    subst hn
    rcases Nat.lt_or_eq_of_le hm with hlt | rfl
    · have hsplit := split_lt (n := l.length) (by omega)
      have hspos := split_pos l.length
      rw [seamNode, seamPath, dif_pos (by omega), dif_pos (by omega)]
      by_cases hleft : m ≤ split l.length
      · have htake : (l.take (split l.length)).length = split l.length := by
          rw [List.length_take, Nat.min_eq_left hsplit.le]
        have hrest := ih _ (by omega) (l := l.take (split l.length)) hpos (by omega) rfl
        have hlength : (seamPath node empty (l.take (split l.length)) m).length = _ :=
          length_seamPath
        rw [htake, List.take_take, Nat.min_eq_left hleft] at hrest
        rw [htake] at hlength
        rw [if_pos hleft, if_pos hleft, seamTurns_of_le_split hlt (by omega) hleft,
          List.zip_append hlength.symm, List.zip_cons_cons, List.zip_nil_right,
          older_concat_left, climb_concat, root_eq node empty (l := l) (by omega)]
        exact ⟨hrest.1, congrArg (node · _) hrest.2⟩
      · rw [Nat.not_le] at hleft
        have hdrop : (l.drop (split l.length)).length = l.length - split l.length :=
          List.length_drop
        have hrest := ih _ (by omega) (l := l.drop (split l.length))
          (Nat.sub_pos_of_lt hleft) (by omega) rfl
        have hlength : (seamPath node empty (l.drop (split l.length)) (m - split l.length)).length =
            _ := length_seamPath
        rw [hdrop] at hrest hlength
        have holder : (l.take m).length = m := by
          rw [List.length_take, Nat.min_eq_left hlt.le]
        have hshared := split_eq_split hleft hlt.le
        rw [if_neg (Nat.not_le.mpr hleft), if_neg (Nat.not_le.mpr hleft),
          seamTurns_of_split_lt hlt hleft, List.zip_append hlength.symm, List.zip_cons_cons,
          List.zip_nil_right, older_concat_right, climb_concat, climb_concat,
          root_eq node empty (l := l) (by omega), root_eq node empty (l := l.take m) (by omega),
          holder, hshared, List.take_take, Nat.min_eq_left hleft.le, List.drop_take]
        exact ⟨congrArg (node _) hrest.1, congrArg (node _) hrest.2⟩
    · rw [seamTurns_self, List.zip_nil_left, older_nil, climb_nil, seamNode,
        dif_neg (by omega), List.take_length]
      exact ⟨rfl, rfl⟩

/-- Where the pairs joined are told apart by their join, one climb that reaches two heads along
the seam comes from a list and its first leaves. -/
theorem seam_sound {l old : List α} {m : Nat} (hpos : 0 < m) (hm : m ≤ l.length)
    (hold : old.length = m) {a : α} {path : List α}
    (hlength : path.length = (seamTurns m l.length).length)
    (hinj : Set.InjOn (Function.uncurry node)
      ({p | p ∈ joins node empty old} ∪ {p | p ∈ joins node empty l} ∪
        ({p | p ∈ climbs node a (older ((seamTurns m l.length).zip path))} ∪
          {p | p ∈ climbs node a ((seamTurns m l.length).zip path)})))
    (hfirst : climb node a (older ((seamTurns m l.length).zip path)) = root node empty old)
    (hsecond : climb node a ((seamTurns m l.length).zip path) = root node empty l) :
    old = l.take m := by
  induction hn : l.length using Nat.strong_induction_on generalizing l old m path with
  | _ n ih =>
    subst hn
    rcases Nat.lt_or_eq_of_le hm with hlt | rfl
    · have hsplit := split_lt (n := l.length) (by omega)
      have hspos := split_pos l.length
      rw [root_eq node empty (l := l) (by omega)] at hsecond
      have htop := mem_joins_top node empty (l := l) (by omega)
      by_cases hleft : m ≤ split l.length
      · have htake : (l.take (split l.length)).length = split l.length := by
          rw [List.length_take, Nat.min_eq_left hsplit.le]
        rw [seamTurns_of_le_split hlt (by omega) hleft] at hlength hinj hfirst hsecond
        obtain ⟨below, sibling, rfl, hbelow, hzip⟩ := exists_concat_of_length hlength
        rw [hzip] at hinj hfirst hsecond
        rw [older_concat_left] at hinj hfirst
        rw [climb_concat] at hsecond
        have hpair := hinj (.inr (.inr (mem_climbs_concat node a _ .left sibling)))
          (.inl (.inr htop)) hsecond
        have hdown := congrArg Prod.fst hpair
        have hrest := ih _ (by omega) (l := l.take (split l.length)) hpos (by omega) hold
          (show below.length = _ by rw [htake, hbelow]) ?_ (by rw [htake, hfirst])
          (by rw [htake]; exact hdown) rfl
        · rw [List.take_take, Nat.min_eq_left hleft] at hrest
          exact hrest
        · rw [htake]
          refine hinj.mono (Set.union_subset_union (Set.union_subset_union subset_rfl ?_)
            (Set.union_subset_union subset_rfl fun p => mem_climbs_append node _))
          exact fun p hp => mem_joins_left node empty (by omega) hp
      · rw [Nat.not_le] at hleft
        have hdrop : (l.drop (split l.length)).length = l.length - split l.length :=
          List.length_drop
        have hshared : split old.length = split l.length := by
          rw [hold]
          exact split_eq_split hleft hlt.le
        rw [seamTurns_of_split_lt hlt hleft] at hlength hinj hfirst hsecond
        obtain ⟨below, sibling, rfl, hbelow, hzip⟩ := exists_concat_of_length hlength
        rw [hzip] at hinj hfirst hsecond
        rw [older_concat_right] at hinj hfirst
        rw [climb_concat] at hfirst hsecond
        rw [root_eq node empty (l := old) (by omega)] at hfirst
        have htopOld := mem_joins_top node empty (l := old) (by omega)
        have hpairOld := hinj (.inr (.inl (mem_climbs_concat node a _ .right sibling)))
          (.inl (.inl htopOld)) hfirst
        have hpair := hinj (.inr (.inr (mem_climbs_concat node a _ .right sibling)))
          (.inl (.inr htop)) hsecond
        rw [hshared] at hpairOld
        obtain ⟨hsiblingOld, hdownOld⟩ := Prod.mk.inj hpairOld
        obtain ⟨hsibling, hdown⟩ := Prod.mk.inj hpair
        have hleftLeaves : old.take (split l.length) = l.take (split l.length) := by
          refine root_inj (by rw [List.length_take, List.length_take]; omega) ?_
            (hsiblingOld.symm.trans hsibling)
          refine hinj.mono (Set.union_subset (fun p hp => ?_) (fun p hp => ?_))
          · exact .inl (.inl (mem_joins_left node empty (by omega) (hshared ▸ hp)))
          · exact .inl (.inr (mem_joins_left node empty (by omega) hp))
        have hrightLeaves := ih _ (by omega) (l := l.drop (split l.length))
          (Nat.sub_pos_of_lt hleft) (by omega)
          (show (old.drop (split l.length)).length = _ by rw [List.length_drop, hold])
          (show below.length = _ by rw [hdrop, hbelow]) ?_
          (by rw [hdrop]; exact hdownOld) (by rw [hdrop]; exact hdown) rfl
        · rw [← List.take_append_drop (split l.length) old, hleftLeaves, hrightLeaves,
            ← List.drop_take, ← Nat.min_eq_left hleft.le, ← List.take_take,
            Nat.min_eq_left hleft.le, List.take_append_drop]
        · rw [hdrop]
          refine hinj.mono (Set.union_subset_union (Set.union_subset_union ?_ ?_)
            (Set.union_subset_union (fun p => mem_climbs_append node _)
              fun p => mem_climbs_append node _))
          · exact fun p hp => mem_joins_right node empty (by omega) (hshared ▸ hp)
          · exact fun p hp => mem_joins_right node empty (by omega) hp
    · rw [seamTurns_self, List.zip_nil_left] at hsecond
      rw [seamTurns_self, List.zip_nil_left, older_nil] at hfirst
      rw [List.take_length]
      refine root_inj hold (hinj.mono Set.subset_union_left) ?_
      exact hfirst.symm.trans hsecond

/-- A property of every join and every leaf holds at the seam and along the climb from it. -/
theorem seam_closed {P : α → Prop} (hnode : ∀ a b, P (node a b)) (hempty : P empty)
    {l : List α} (hl : ∀ a ∈ l, P a) {m : Nat} :
    P (seamNode node empty l m) ∧ ∀ a ∈ seamPath node empty l m, P a := by
  induction hn : l.length using Nat.strong_induction_on generalizing l m with
  | _ n ih =>
    subst hn
    rw [seamNode, seamPath]
    split
    · rename_i h
      have hlt := split_lt h.2
      have hpos := split_pos l.length
      have htake : ∀ a ∈ l.take (split l.length), P a := fun a ha => hl a (List.mem_of_mem_take ha)
      have hdrop : ∀ a ∈ l.drop (split l.length), P a := fun a ha => hl a (List.mem_of_mem_drop ha)
      split
      · have hrest := fun m' => @ih _ (by rw [List.length_take]; omega) _ htake m' rfl
        rw [List.forall_mem_append, List.forall_mem_singleton]
        exact ⟨(hrest m).1, (hrest m).2, root_closed hnode hempty hdrop⟩
      · have hrest := fun m' => @ih _ (by rw [List.length_drop]; omega) _ hdrop m' rfl
        rw [List.forall_mem_append, List.forall_mem_singleton]
        exact ⟨(hrest _).1, (hrest _).2, root_closed hnode hempty htake⟩
    · exact ⟨root_closed hnode hempty hl, fun a ha => absurd ha List.not_mem_nil⟩

end

end CoolSdk.MerkleTree
