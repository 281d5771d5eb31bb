import CoolSdk.Phala.AnchorMerge

/-!
# Ranked proofs

A proof in memory is a tree, whatever its nodes share, where ranks fall along the operations. Two
proofs remain trees when they are merged where matched nodes have one rank: then no node comes to
lie below itself, and the merge returns.
-/

namespace CoolSdk.Anchor

variable {H : Host} {A : AnchorHost} {heap heap' : Heap} {x y : Nat} {M : Nat → Nat → Prop}
  {rank : Nat → Nat}

/-- Ranks that fall along the operations, and that the results of an operation on nodes of one rank
about one message have in common. -/
structure Heap.Ranked (heap : Heap) (rank : Nat → Nat) : Prop where
  falls : ∀ x, ∀ entry ∈ (heap.node x).ops, rank entry.2 < rank x
  agrees : ∀ x y, rank x = rank y → (heap.node x).msg = (heap.node y).msg →
    ∀ entry ∈ (heap.node x).ops, ∀ entry' ∈ (heap.node y).ops, entry.1 = entry'.1 →
      rank entry.2 = rank entry'.2

theorem Heap.Ranked.matched (h : heap.Ranked rank) (hrank : rank x = rank y)
    (hmsg : (heap.node x).msg = (heap.node y).msg) {entry mine : AnchorOp × Nat}
    (he : entry ∈ (heap.node y).ops) (hmine : findOp (heap.node x).ops entry.1 = some mine) :
    rank mine.2 = rank entry.2 := by
  obtain ⟨hmem, hkey⟩ := findOp_eq_some hmine
  exact h.agrees x y hrank hmsg mine hmem entry he (opKey_injective hkey)

/-! ## What a merge keeps -/

theorem Absorb.derived (h : Absorb M heap heap') (hderived : heap.Derived H A) :
    heap'.Derived H A := by
  intro x entry he
  rw [h.msg_eq, h.msg_eq]
  rcases h.mem_ops he with he | ⟨y, _, hmsg, he⟩
  · exact hderived x entry he
  · rw [hmsg]
    exact hderived y entry he

/-- **Every message is still derived** after a merge, however it ends. -/
theorem Heap.Derived.merge (h : heap.Derived H A) (fuel x y : Nat) :
    (merge fuel x y heap).2.Derived H A :=
  (merge_keeps (I := fun g => g.Derived H A) (M := fun _ _ => True)
    (fun _ _ _ _ _ _ _ => trivial) (fun hI habsorb => habsorb.derived hI) fuel h trivial).1

theorem Absorb.ranked (h : Absorb (fun x y => rank x = rank y) heap heap')
    (hranked : heap.Ranked rank) : heap'.Ranked rank := by
  -- an operation of a node is one that a node of its rank about its message had before
  have hmem : ∀ {x entry}, entry ∈ (heap'.node x).ops → ∃ z, rank z = rank x ∧
      (heap.node z).msg = (heap'.node x).msg ∧ entry ∈ (heap.node z).ops := by
    intro x entry he
    rw [h.msg_eq]
    rcases h.mem_ops he with he | ⟨y, hrank, hmsg, he⟩
    · exact ⟨x, rfl, rfl, he⟩
    · exact ⟨y, hrank.symm, hmsg.symm, he⟩
  constructor
  · intro x entry he
    obtain ⟨z, hz, _, hentry⟩ := hmem he
    rw [← hz]
    exact hranked.falls z entry hentry
  · intro x y hrank hmsg entry he entry' he' hop
    obtain ⟨z, hz, hzmsg, hentry⟩ := hmem he
    obtain ⟨w, hw, hwmsg, hentry'⟩ := hmem he'
    exact hranked.agrees z w (by rw [hz, hw, hrank]) (by rw [hzmsg, hwmsg, hmsg]) entry hentry
      entry' hentry' hop

/-- Merging nodes of one rank keeps the ranks. -/
theorem Heap.Ranked.merge (h : heap.Ranked rank) (hrank : rank x = rank y) (fuel : Nat) :
    (merge fuel x y heap).2.Ranked rank :=
  (merge_keeps (I := fun g => g.Ranked rank) (M := fun x y => rank x = rank y)
    (fun hI hM hmsg _ he _ hmine => hI.matched hM hmsg he hmine)
    (fun hI habsorb => habsorb.ranked hI) fuel h hrank).1

/-- A merge of nodes of one rank leaves the nodes of every higher rank as they are. -/
theorem merge_above {r : Nat} (h : heap.Ranked rank) (hrank : rank x = rank y) (hx : rank x < r)
    (fuel : Nat) {z : Nat} (hz : r ≤ rank z) : (merge fuel x y heap).2.node z = heap.node z := by
  have hkeeps := merge_keeps (I := fun g => g.Ranked rank ∧ ∀ z, r ≤ rank z →
      g.node z = heap.node z) (M := fun x y => rank x = rank y ∧ rank x < r) (x := x) (y := y)
    ?_ ?_ fuel ⟨h, fun _ _ => rfl⟩ ⟨hrank, hx⟩
  · exact hkeeps.1.2 z hz
  · rintro g u v ⟨hranked, _⟩ ⟨huv, hu⟩ hmsg entry he mine hmine
    exact ⟨hranked.matched huv hmsg he hmine,
      (hranked.falls u mine (findOp_eq_some hmine).1).trans hu⟩
  · rintro g g' ⟨hranked, hsame⟩ habsorb
    have habove : ∀ z, r ≤ rank z → g'.node z = g.node z := by
      intro z hz
      cases habsorb with
      | attestations hM => exact Heap.node_set_of_ne (by rintro rfl; omega) _
      | op hM => exact Heap.node_set_of_ne (by rintro rfl; omega) _
    refine ⟨Absorb.ranked ?_ hranked, fun z hz => (habove z hz).trans (hsame z hz)⟩
    cases habsorb with
    | attestations hM hmsg => exact .attestations hM.1 hmsg
    | op hM hmsg he hnew => exact .op hM.1 hmsg he hnew

/-! ## Returning -/

theorem mergeOps_returns (hderived : heap.Derived H A) (hranked : heap.Ranked rank)
    (hrank : rank x = rank y) (hmsg : (heap.node x).msg = (heap.node y).msg)
    (hbelow : ∀ {u v} {g : Heap}, g.Derived H A → g.Ranked rank → rank u = rank v →
      (g.node u).msg = (g.node v).msg → rank v < rank y →
        ∃ n g', ∀ fuel ≥ n, merge fuel u v g = (.ok (), g'))
    (k i : Nat) (hlen : i + k = (heap.node y).ops.length) :
    ∃ n heap', ∀ fuel ≥ n, ∀ depth ≥ n, mergeOps (merge depth) x y fuel i heap =
      (.ok (), heap') := by
  induction k generalizing i heap with
  | zero =>
    refine ⟨1, heap, ?_⟩
    intro fuel hfuel depth _
    obtain ⟨fuel, rfl⟩ : ∃ fuel', fuel = fuel' + 1 := ⟨fuel - 1, by omega⟩
    rw [mergeOps, List.getElem?_eq_none (by omega)]
  | succ k ih =>
    have hlt : i < (heap.node y).ops.length := by omega
    cases hfind : findOp (heap.node x).ops ((heap.node y).ops[i]).1 with
    | none =>
      have hne : y ≠ x := by
        rintro rfl
        have hfound := List.find?_eq_none.mp hfind _ (List.getElem_mem hlt)
        simp at hfound
      have habsorb : Absorb (fun x y => rank x = rank y) heap
          (heap.pushOp x (heap.node y).ops[i]) :=
        .op hrank hmsg (List.getElem_mem hlt) hfind
      have hsame : (heap.pushOp x (heap.node y).ops[i]).node y = heap.node y :=
        Heap.node_set_of_ne hne _
      obtain ⟨n, heap', hrun⟩ := ih (habsorb.derived hderived) (habsorb.ranked hranked)
        (by rw [habsorb.msg_eq, habsorb.msg_eq, hmsg]) (i + 1) (by rw [hsame]; omega)
      refine ⟨n + 1, heap', ?_⟩
      intro fuel hfuel depth hdepth
      obtain ⟨fuel, rfl⟩ : ∃ fuel', fuel = fuel' + 1 := ⟨fuel - 1, by omega⟩
      rw [mergeOps, List.getElem?_eq_getElem hlt]
      dsimp only
      rw [hfind]
      exact hrun fuel (by omega) depth (by omega)
    | some mine =>
      have hmem := List.getElem_mem hlt
      obtain ⟨hmine, hkey⟩ := findOp_eq_some hfind
      have hranks := hranked.matched hrank hmsg hmem hfind
      have hfalls := hranked.falls y _ hmem
      have hmsgs : (heap.node mine.2).msg = (heap.node ((heap.node y).ops[i]).2).msg := by
        have hleft := hderived x mine hmine
        rw [opKey_injective hkey, hmsg, hderived y _ hmem] at hleft
        exact (Except.ok.inj hleft).symm
      obtain ⟨n, g, hg⟩ := hbelow hderived hranked hranks hmsgs hfalls
      have hafter : g = (merge n mine.2 ((heap.node y).ops[i]).2 heap).2 := by
        rw [hg n le_rfl]
      have hsame : g.node y = heap.node y := by
        rw [hafter]
        exact merge_above hranked hranks (by omega) n le_rfl
      have hmsgx : (g.node x).msg = (heap.node x).msg := by
        rw [hafter]
        exact (merge_grows n _ _ heap x).msg
      have hderived' : g.Derived H A := by
        rw [hafter]
        exact hderived.merge n _ _
      have hranked' : g.Ranked rank := by
        rw [hafter]
        exact hranked.merge hranks n
      obtain ⟨n', heap', hrun⟩ := ih hderived' hranked' (by rw [hsame, hmsgx, hmsg]) (i + 1)
        (by rw [hsame]; omega)
      refine ⟨n + n' + 1, heap', ?_⟩
      intro fuel hfuel depth hdepth
      obtain ⟨fuel, rfl⟩ : ∃ fuel', fuel = fuel' + 1 := ⟨fuel - 1, by omega⟩
      rw [mergeOps, List.getElem?_eq_getElem hlt]
      dsimp only
      rw [hfind]
      dsimp only
      rw [hg depth (by omega)]
      exact hrun fuel (by omega) depth (by omega)

/-- **A merge of nodes of one rank returns.** -/
theorem merge_returns (hderived : heap.Derived H A) (hranked : heap.Ranked rank)
    (hrank : rank x = rank y) (hmsg : (heap.node x).msg = (heap.node y).msg) :
    ∃ n heap', ∀ fuel ≥ n, merge fuel x y heap = (.ok (), heap') := by
  induction hr : rank y using Nat.strongRecOn generalizing x y heap with
  | ind r ih =>
    have habsorb : Absorb (fun x y => rank x = rank y) heap _ := .attestations hrank hmsg
    obtain ⟨n, heap', hrun⟩ := mergeOps_returns (habsorb.derived hderived)
      (habsorb.ranked hranked) hrank (by rw [habsorb.msg_eq, habsorb.msg_eq, hmsg])
      (fun hd hk huv hm hlt => ih _ (by omega) hd hk huv hm rfl) _ 0 (Nat.zero_add _)
    refine ⟨n + 1, heap', ?_⟩
    intro fuel hfuel
    obtain ⟨fuel, rfl⟩ : ∃ fuel', fuel = fuel' + 1 := ⟨fuel - 1, by omega⟩
    rw [merge, if_neg (not_not_intro hmsg)]
    exact hrun fuel (by omega) fuel (by omega)

/-- What a ranked proof reaches is listed, with enough fuel. -/
theorem Heap.Ranked.reachable (h : heap.Ranked rank) {fuel : Nat} (hfuel : rank x < fuel) :
    ∃ reached, heap.reachable fuel x = .ok reached ∧
      ∀ a m, (a, m) ∈ reached ↔ heap.Reaches x a m := by
  induction fuel generalizing x with
  | zero => omega
  | succ fuel ih =>
    have hbelow : ∀ ops : List (AnchorOp × Nat), (∀ entry ∈ ops, rank entry.2 < rank x) →
        ∃ below, ops.mapM (fun entry => heap.reachable fuel entry.2) = .ok below ∧
          ∀ a m, (a, m) ∈ below.flatten ↔ ∃ entry ∈ ops, heap.Reaches entry.2 a m := by
      intro ops
      induction ops with
      | nil =>
        intro _
        exact ⟨[], rfl, by simp⟩
      | cons entry ops ih' =>
        intro hfalls
        rw [List.forall_mem_cons] at hfalls
        obtain ⟨reached, hreached, hmem⟩ := ih (x := entry.2) (by omega)
        obtain ⟨below, hbelow, hmems⟩ := ih' hfalls.2
        refine ⟨reached :: below, ?_, ?_⟩
        · rw [List.mapM_cons, hreached, ok_bind, hbelow]
          rfl
        · intro a m
          rw [List.flatten_cons, List.mem_append, hmem, hmems, List.exists_mem_cons_iff]
    obtain ⟨below, hrun, hmems⟩ := hbelow _ (h.falls x)
    refine ⟨_, by rw [Heap.reachable, hrun]; rfl, ?_⟩
    intro a m
    rw [List.mem_append, hmems, List.mem_map, Heap.reaches_iff]
    apply or_congr_left
    constructor
    · rintro ⟨b, hb, heq⟩
      cases heq
      exact ⟨hb, rfl⟩
    · rintro ⟨ha, rfl⟩
      exact ⟨a, ha, rfl⟩

end CoolSdk.Anchor
