import CoolSdk.Phala.AnchorRemerge

/-!
# Proofs that are put into memory

A proof that is read is put into memory as new nodes, each referred to once. Two proofs that are
put there share no node, and their nodes have the depth below the root for a rank.
-/

namespace CoolSdk.Anchor

variable {H : Host} {A : AnchorHost}

mutual

/-- Put a tree into memory. -/
def alloc : Timestamp → Heap → Nat × Heap
  | .mk msg attestations ops, heap =>
    let (refs, heap) := allocOps ops heap
    (heap.next, { node := Function.update heap.node heap.next { msg, attestations, ops := refs }
                  next := heap.next + 1 })

def allocOps : List (AnchorOp × Timestamp) → Heap → List (AnchorOp × Nat) × Heap
  | [], heap => ([], heap)
  | (op, stamp) :: ops, heap =>
    let (x, heap) := alloc stamp heap
    let (refs, heap) := allocOps ops heap
    ((op, x) :: refs, heap)

end

/-- Operations refer to nodes that are in use. -/
def Heap.Scoped (heap : Heap) : Prop := ∀ x, ∀ entry ∈ (heap.node x).ops, entry.2 < heap.next

/-- A heap with more nodes in use, and none changed that was in use. -/
structure Heap.Allocates (heap heap' : Heap) : Prop where
  le : heap.next ≤ heap'.next
  unchanged : ∀ z, z < heap.next ∨ heap'.next ≤ z → heap'.node z = heap.node z

/-- A node is put behind all that are in use. -/
def Heap.put (heap : Heap) (node : HeapNode) : Heap :=
  { node := Function.update heap.node heap.next node, next := heap.next + 1 }

variable {heap heap' heap'' : Heap} {x y z : Nat} {t : Timestamp}

theorem alloc_mk (msg : Bytes) (attestations : List Attestation)
    (ops : List (AnchorOp × Timestamp)) (heap : Heap) :
    alloc (.mk msg attestations ops) heap = ((allocOps ops heap).2.next,
      (allocOps ops heap).2.put { msg, attestations, ops := (allocOps ops heap).1 }) := by
  rw [alloc]
  rfl

theorem allocOps_cons (op : AnchorOp) (stamp : Timestamp) (ops : List (AnchorOp × Timestamp))
    (heap : Heap) :
    allocOps ((op, stamp) :: ops) heap =
      ((op, (alloc stamp heap).1) :: (allocOps ops (alloc stamp heap).2).1,
        (allocOps ops (alloc stamp heap).2).2) := by
  rw [allocOps]

namespace Heap

theorem Allocates.refl (heap : Heap) : heap.Allocates heap := ⟨le_rfl, fun _ _ => rfl⟩

theorem Allocates.trans (h : heap.Allocates heap') (h' : heap'.Allocates heap'') :
    heap.Allocates heap'' where
  le := h.le.trans h'.le
  unchanged := by
    rintro z (hz | hz)
    · rw [h'.unchanged z (.inl (hz.trans_le h.le)), h.unchanged z (.inl hz)]
    · rw [h'.unchanged z (.inr hz), h.unchanged z (.inr (h'.le.trans hz))]

@[simp] theorem node_put_self (heap : Heap) (node : HeapNode) :
    (heap.put node).node heap.next = node := Function.update_self ..

theorem node_put_of_ne (h : z ≠ heap.next) (node : HeapNode) :
    (heap.put node).node z = heap.node z := Function.update_of_ne h ..

@[simp] theorem next_put (heap : Heap) (node : HeapNode) : (heap.put node).next = heap.next + 1 :=
  rfl

theorem allocates_put (heap : Heap) (node : HeapNode) : heap.Allocates (heap.put node) where
  le := Nat.le_succ _
  unchanged := by
    rintro z (hz | hz)
    · exact node_put_of_ne (by omega) node
    · rw [next_put] at hz
      exact node_put_of_ne (by omega) node

end Heap

mutual

/-- **A tree that is put into memory changes no node in use**, and has the node that was put
last. -/
theorem alloc_allocates : (t : Timestamp) → (heap : Heap) →
    heap.Allocates (alloc t heap).2 ∧ heap.next ≤ (alloc t heap).1 ∧
      (alloc t heap).2.next = (alloc t heap).1 + 1
  | .mk msg attestations ops, heap => by
    have hops := allocOps_allocates ops heap
    rw [alloc_mk]
    exact ⟨hops.trans (Heap.allocates_put _ _), hops.le, rfl⟩

theorem allocOps_allocates : (ops : List (AnchorOp × Timestamp)) → (heap : Heap) →
    heap.Allocates (allocOps ops heap).2
  | [], heap => by
    rw [allocOps]
    exact .refl heap
  | (op, stamp) :: ops, heap => by
    rw [allocOps_cons]
    exact (alloc_allocates stamp heap).1.trans (allocOps_allocates ops _)

end

theorem alloc_lt (t : Timestamp) (heap : Heap) : (alloc t heap).1 < (alloc t heap).2.next := by
  rw [(alloc_allocates t heap).2.2]
  exact Nat.lt_succ_self _

/-- The node of a tree is about the tree's message. -/
theorem alloc_msg (t : Timestamp) (heap : Heap) :
    ((alloc t heap).2.node (alloc t heap).1).msg = t.msg := by
  cases t with
  | mk msg attestations ops =>
    rw [alloc_mk, Heap.node_put_self]
    rfl

mutual

/-- New nodes refer to new ones that were put before them. -/
theorem alloc_refs : (t : Timestamp) → (heap : Heap) → ∀ z, heap.next ≤ z →
    z < (alloc t heap).2.next → ∀ entry ∈ ((alloc t heap).2.node z).ops,
      heap.next ≤ entry.2 ∧ entry.2 < z
  | .mk msg attestations ops, heap => by
    intro z hz hlt entry he
    obtain ⟨hrefs, hbelow⟩ := allocOps_refs ops heap
    rw [alloc_mk] at hlt he
    by_cases hlast : z = (allocOps ops heap).2.next
    · rw [hlast, Heap.node_put_self] at he
      rw [hlast]
      exact hrefs entry he
    · rw [Heap.node_put_of_ne hlast] at he
      rw [Heap.next_put] at hlt
      exact hbelow z hz (by omega) entry he

theorem allocOps_refs : (ops : List (AnchorOp × Timestamp)) → (heap : Heap) →
    (∀ entry ∈ (allocOps ops heap).1,
      heap.next ≤ entry.2 ∧ entry.2 < (allocOps ops heap).2.next) ∧
      ∀ z, heap.next ≤ z → z < (allocOps ops heap).2.next →
        ∀ entry ∈ ((allocOps ops heap).2.node z).ops, heap.next ≤ entry.2 ∧ entry.2 < z
  | [], heap => by
    rw [allocOps]
    exact ⟨List.forall_mem_nil _, fun z hz hlt => absurd hlt (not_lt.mpr hz)⟩
  | (op, stamp) :: ops, heap => by
    obtain ⟨hstamp, hroot, hnext⟩ := alloc_allocates stamp heap
    have hops := allocOps_allocates ops (alloc stamp heap).2
    obtain ⟨hrefs, hbelow⟩ := allocOps_refs ops (alloc stamp heap).2
    rw [allocOps_cons]
    constructor
    · intro entry he
      rcases List.mem_cons.mp he with rfl | he
      · exact ⟨hroot, (alloc_lt stamp heap).trans_le hops.le⟩
      · exact ⟨hstamp.le.trans (hrefs entry he).1, (hrefs entry he).2⟩
    · intro z hz hlt entry he
      dsimp only at hlt he
      by_cases hnew : z < (alloc stamp heap).2.next
      · rw [hops.unchanged z (.inl hnew)] at he
        exact alloc_refs stamp heap z hz hnew entry he
      · obtain ⟨hle, hz⟩ := hbelow z (by omega) hlt entry he
        exact ⟨hstamp.le.trans hle, hz⟩

end

/-- Nodes out of use stay as they are, so that all that is referred to is in use. -/
theorem Heap.Scoped.allocOps (h : heap.Scoped) (ops : List (AnchorOp × Timestamp)) :
    (allocOps ops heap).2.Scoped := by
  have hallocates := allocOps_allocates ops heap
  intro z entry he
  by_cases hz : heap.next ≤ z ∧ z < (Anchor.allocOps ops heap).2.next
  · exact ((allocOps_refs ops heap).2 z hz.1 hz.2 entry he).2.trans hz.2
  · rw [hallocates.unchanged z (by omega)] at he
    exact (h z entry he).trans_le hallocates.le

theorem Heap.Scoped.alloc (h : heap.Scoped) (t : Timestamp) : (alloc t heap).2.Scoped := by
  obtain ⟨hallocates, _, _⟩ := alloc_allocates t heap
  intro z entry he
  by_cases hz : heap.next ≤ z ∧ z < (Anchor.alloc t heap).2.next
  · exact (alloc_refs t heap z hz.1 hz.2 entry he).2.trans hz.2
  · rw [hallocates.unchanged z (by omega)] at he
    exact (h z entry he).trans_le hallocates.le

mutual

theorem alloc_derived : (t : Timestamp) → (heap : Heap) → t.Derived H A →
    ∀ z, heap.next ≤ z → z < (alloc t heap).2.next → ∀ entry ∈ ((alloc t heap).2.node z).ops,
      applyOp H A entry.1 ((alloc t heap).2.node z).msg =
        .ok ((alloc t heap).2.node entry.2).msg
  | .mk msg attestations ops, heap, h => by
    obtain ⟨hop, hstamp⟩ := h
    obtain ⟨hrefs, hbelow⟩ := allocOps_derived ops heap msg hop hstamp
    have hbounds := allocOps_refs ops heap
    intro z hz hlt entry he
    rw [alloc_mk] at hlt he ⊢
    dsimp only at hlt he ⊢
    by_cases hlast : z = (allocOps ops heap).2.next
    · rw [hlast, Heap.node_put_self] at he ⊢
      rw [Heap.node_put_of_ne (hbounds.1 entry he).2.ne]
      exact hrefs entry he
    · rw [Heap.next_put] at hlt
      have hz' : z < (allocOps ops heap).2.next := by omega
      rw [Heap.node_put_of_ne hlast] at he ⊢
      rw [Heap.node_put_of_ne (((hbounds.2 z hz hz' entry he).2.trans hz').ne)]
      exact hbelow z hz hz' entry he

theorem allocOps_derived : (ops : List (AnchorOp × Timestamp)) → (heap : Heap) → (msg : Bytes) →
    (∀ entry ∈ ops, applyOp H A entry.1 msg = .ok entry.2.msg) →
      (∀ entry ∈ ops, entry.2.Derived H A) →
        (∀ entry ∈ (allocOps ops heap).1,
          applyOp H A entry.1 msg = .ok ((allocOps ops heap).2.node entry.2).msg) ∧
        ∀ z, heap.next ≤ z → z < (allocOps ops heap).2.next →
          ∀ entry ∈ ((allocOps ops heap).2.node z).ops,
            applyOp H A entry.1 ((allocOps ops heap).2.node z).msg =
              .ok ((allocOps ops heap).2.node entry.2).msg
  | [], heap, _, _, _ => by
    rw [allocOps]
    exact ⟨List.forall_mem_nil _, fun z hz hlt => absurd hlt (not_lt.mpr hz)⟩
  | (op, stamp) :: ops, heap, msg, hop, hstamp => by
    rw [List.forall_mem_cons] at hop hstamp
    have hnew := alloc_derived stamp heap hstamp.1
    have hrefs := alloc_refs stamp heap
    obtain ⟨hmore, hbelow⟩ := allocOps_derived ops (alloc stamp heap).2 msg hop.2 hstamp.2
    have hkept := (allocOps_allocates ops (alloc stamp heap).2).unchanged
    rw [allocOps_cons]
    constructor
    · intro entry he
      rcases List.mem_cons.mp he with rfl | he
      · dsimp only
        rw [hkept _ (.inl (alloc_lt stamp heap)), alloc_msg]
        exact hop.1
      · exact hmore entry he
    · intro z hz hlt entry he
      dsimp only at hlt he ⊢
      by_cases hz' : z < (alloc stamp heap).2.next
      · rw [hkept z (.inl hz')] at he ⊢
        rw [hkept _ (.inl ((hrefs z hz hz' entry he).2.trans hz'))]
        exact hnew z hz hz' entry he
      · exact hbelow z (by omega) hlt entry he

end

/-- A derived tree that is put into memory leaves every message derived. -/
theorem Heap.Derived.alloc (h : heap.Derived H A) (hscoped : heap.Scoped) (ht : t.Derived H A) :
    (alloc t heap).2.Derived H A := by
  obtain ⟨hallocates, _, _⟩ := alloc_allocates t heap
  intro z entry he
  by_cases hz : heap.next ≤ z ∧ z < (Anchor.alloc t heap).2.next
  · exact alloc_derived t heap ht z hz.1 hz.2 entry he
  · rw [hallocates.unchanged z (by omega)] at he ⊢
    rw [hallocates.unchanged entry.2 (.inl (hscoped z entry he))]
    exact h z entry he

/-! ## What is reached -/

theorem Heap.Scoped.below_lt (h : heap.Scoped) (hx : x < heap.next) (hz : heap.Below x z) :
    z < heap.next := by
  induction hz with
  | refl => exact hx
  | tail _ hedge _ =>
    obtain ⟨op, hop⟩ := hedge
    exact h _ _ hop

/-- What a node in use reaches is what it reached before more nodes were put. -/
theorem Heap.Scoped.reaches_iff (h : heap.Scoped) (hallocates : heap.Allocates heap')
    (hx : x < heap.next) {a : Attestation} {m : Bytes} :
    heap'.Reaches x a m ↔ heap.Reaches x a m := by
  have hbelow : ∀ z, heap'.Below x z ↔ heap.Below x z := by
    intro z
    constructor
    · intro hz
      induction hz with
      | refl => exact .refl
      | tail _ hedge ih =>
        obtain ⟨op, hop⟩ := hedge
        rw [hallocates.unchanged _ (.inl (h.below_lt hx ih))] at hop
        exact ih.tail ⟨op, hop⟩
    · intro hz
      induction hz with
      | refl => exact .refl
      | tail hz hedge ih =>
        obtain ⟨op, hop⟩ := hedge
        rw [← hallocates.unchanged _ (.inl (h.below_lt hx hz))] at hop
        exact ih.tail ⟨op, hop⟩
  constructor
  · rintro ⟨z, hz, ha, hm⟩
    rw [hallocates.unchanged z (.inl (h.below_lt hx ((hbelow z).mp hz)))] at ha hm
    exact ⟨z, (hbelow z).mp hz, ha, hm⟩
  · rintro ⟨z, hz, ha, hm⟩
    rw [← hallocates.unchanged z (.inl (h.below_lt hx hz))] at ha hm
    exact ⟨z, (hbelow z).mpr hz, ha, hm⟩

mutual

/-- **A tree in memory reaches what the tree reaches.** -/
theorem alloc_reaches : (t : Timestamp) → (heap : Heap) → heap.Scoped → ∀ a m,
    (alloc t heap).2.Reaches (alloc t heap).1 a m ↔ (a, m) ∈ reachable t
  | .mk msg attestations ops, heap, h => by
    intro a m
    have hops := allocOps_reaches ops heap h a m
    have hrefs := (allocOps_refs ops heap).1
    rw [alloc_mk, Heap.reaches_iff, Heap.node_put_self, reachable, List.mem_append, List.mem_map,
      ← hops]
    refine or_congr ?_ ?_
    · constructor
      · rintro ⟨ha, rfl⟩
        exact ⟨a, ha, rfl⟩
      · rintro ⟨b, hb, heq⟩
        cases heq
        exact ⟨hb, rfl⟩
    · have hput := (allocOps ops heap).2.allocates_put
        { msg, attestations, ops := (allocOps ops heap).1 }
      constructor
      · rintro ⟨entry, he, hreaches⟩
        exact ⟨entry, he, ((h.allocOps ops).reaches_iff hput (hrefs entry he).2).mp hreaches⟩
      · rintro ⟨entry, he, hreaches⟩
        exact ⟨entry, he, ((h.allocOps ops).reaches_iff hput (hrefs entry he).2).mpr hreaches⟩

theorem allocOps_reaches : (ops : List (AnchorOp × Timestamp)) → (heap : Heap) → heap.Scoped →
    ∀ a m, (∃ entry ∈ (allocOps ops heap).1, (allocOps ops heap).2.Reaches entry.2 a m) ↔
      (a, m) ∈ reachableOps ops
  | [], heap, _ => by
    intro a m
    simp [allocOps, reachableOps]
  | (op, stamp) :: ops, heap, h => by
    intro a m
    have hstamp := alloc_reaches stamp heap h a m
    have hmore := allocOps_reaches ops (alloc stamp heap).2 (h.alloc stamp) a m
    have hkept := (h.alloc stamp).reaches_iff (allocOps_allocates ops (alloc stamp heap).2)
      (alloc_lt stamp heap) (a := a) (m := m)
    rw [allocOps_cons, reachableOps, List.mem_append, ← hstamp, ← hmore, ← hkept,
      List.exists_mem_cons_iff]

end

/-! ## Ranks and references -/

mutual

/-- The nodes of a tree have their height above a bottom for a rank. -/
theorem alloc_levels : (t : Timestamp) → ∃ n, ∀ d ≥ n, ∀ (heap : Heap) (rank : Nat → Nat),
    ∃ rank' : Nat → Nat, (∀ z < heap.next, rank' z = rank z) ∧ rank' (alloc t heap).1 = d ∧
      ∀ z, heap.next ≤ z → z < (alloc t heap).2.next →
        ∀ entry ∈ ((alloc t heap).2.node z).ops, rank' entry.2 + 1 = rank' z
  | .mk msg attestations ops => by
    obtain ⟨n, hn⟩ := allocOps_levels ops
    refine ⟨n + 1, ?_⟩
    intro d hd heap rank
    obtain ⟨rank', hold, hrefs, hlevels⟩ := hn (d - 1) (by omega) heap rank
    have hbounds := allocOps_refs ops heap
    have hle := (allocOps_allocates ops heap).le
    rw [alloc_mk]
    refine ⟨Function.update rank' (allocOps ops heap).2.next d, ?_, Function.update_self .., ?_⟩
    · intro z hz
      rw [Function.update_of_ne (by omega), hold z hz]
    · intro z hz hlt entry he
      dsimp only at hlt he
      by_cases hlast : z = (allocOps ops heap).2.next
      · rw [hlast, Heap.node_put_self] at he
        rw [hlast, Function.update_self, Function.update_of_ne (hbounds.1 entry he).2.ne,
          hrefs entry he]
        omega
      · rw [Heap.node_put_of_ne hlast] at he
        rw [Heap.next_put] at hlt
        have hz' : z < (allocOps ops heap).2.next := by omega
        rw [Function.update_of_ne hlast,
          Function.update_of_ne ((hbounds.2 z hz hz' entry he).2.trans hz').ne,
          hlevels z hz hz' entry he]

theorem allocOps_levels : (ops : List (AnchorOp × Timestamp)) → ∃ n, ∀ d ≥ n, ∀ (heap : Heap)
    (rank : Nat → Nat), ∃ rank' : Nat → Nat, (∀ z < heap.next, rank' z = rank z) ∧
      (∀ entry ∈ (allocOps ops heap).1, rank' entry.2 = d) ∧
        ∀ z, heap.next ≤ z → z < (allocOps ops heap).2.next →
          ∀ entry ∈ ((allocOps ops heap).2.node z).ops, rank' entry.2 + 1 = rank' z
  | [] => by
    refine ⟨0, fun d _ heap rank => ⟨rank, fun _ _ => rfl, ?_, ?_⟩⟩
    · rw [allocOps]
      exact List.forall_mem_nil _
    · intro z hz hlt
      rw [allocOps] at hlt
      exact absurd hlt (not_lt.mpr hz)
  | (op, stamp) :: ops => by
    obtain ⟨n, hn⟩ := alloc_levels stamp
    obtain ⟨n', hn'⟩ := allocOps_levels ops
    refine ⟨n + n', ?_⟩
    intro d hd heap rank
    obtain ⟨rank₁, hold₁, hroot, hlevels₁⟩ := hn d (by omega) heap rank
    obtain ⟨rank₂, hold₂, hrefs, hlevels₂⟩ := hn' d (by omega) (alloc stamp heap).2 rank₁
    have hle := (alloc_allocates stamp heap).1.le
    have hkept := (allocOps_allocates ops (alloc stamp heap).2).unchanged
    rw [allocOps_cons]
    refine ⟨rank₂, ?_, ?_, ?_⟩
    · intro z hz
      rw [hold₂ z (by omega), hold₁ z hz]
    · refine List.forall_mem_cons.mpr ⟨?_, hrefs⟩
      rw [hold₂ _ (alloc_lt stamp heap), hroot]
    · intro z hz hlt entry he
      dsimp only at hlt he
      by_cases hz' : z < (alloc stamp heap).2.next
      · rw [hkept z (.inl hz')] at he
        have hentry := (alloc_refs stamp heap z hz hz' entry he).2
        rw [hold₂ z hz', hold₂ entry.2 (hentry.trans hz'), hlevels₁ z hz hz' entry he]
      · exact hlevels₂ z (by omega) hlt entry he

end

mutual

/-- A new node is referred to once. -/
theorem alloc_unshared : (t : Timestamp) → (heap : Heap) → ∀ y z, heap.next ≤ y →
    y < (alloc t heap).2.next → heap.next ≤ z → z < (alloc t heap).2.next →
      ∀ entry ∈ ((alloc t heap).2.node y).ops, ∀ entry' ∈ ((alloc t heap).2.node z).ops,
        entry.2 = entry'.2 → y = z ∧ entry = entry'
  | .mk msg attestations ops, heap => by
    obtain ⟨hbelow, hrefs, hdistinct⟩ := allocOps_unshared ops heap
    intro y z hy hylt hz hzlt entry he entry' he' hsame
    rw [alloc_mk] at hylt hzlt he he'
    dsimp only at hylt hzlt he he'
    rw [Heap.next_put] at hylt hzlt
    by_cases hylast : y = (allocOps ops heap).2.next
    · rw [hylast, Heap.node_put_self] at he
      by_cases hzlast : z = (allocOps ops heap).2.next
      · rw [hzlast, Heap.node_put_self] at he'
        exact ⟨by rw [hylast, hzlast], hdistinct entry he entry' he' hsame⟩
      · rw [Heap.node_put_of_ne hzlast] at he'
        exact absurd hsame.symm (hrefs z hz (by omega) entry' he' entry he)
    · rw [Heap.node_put_of_ne hylast] at he
      by_cases hzlast : z = (allocOps ops heap).2.next
      · rw [hzlast, Heap.node_put_self] at he'
        exact absurd hsame (hrefs y hy (by omega) entry he entry' he')
      · rw [Heap.node_put_of_ne hzlast] at he'
        exact hbelow y z hy (by omega) hz (by omega) entry he entry' he' hsame

theorem allocOps_unshared : (ops : List (AnchorOp × Timestamp)) → (heap : Heap) →
    (∀ y z, heap.next ≤ y → y < (allocOps ops heap).2.next → heap.next ≤ z →
      z < (allocOps ops heap).2.next → ∀ entry ∈ ((allocOps ops heap).2.node y).ops,
        ∀ entry' ∈ ((allocOps ops heap).2.node z).ops, entry.2 = entry'.2 →
          y = z ∧ entry = entry') ∧
    (∀ z, heap.next ≤ z → z < (allocOps ops heap).2.next →
      ∀ entry ∈ ((allocOps ops heap).2.node z).ops, ∀ ref ∈ (allocOps ops heap).1,
        entry.2 ≠ ref.2) ∧
    ∀ ref ∈ (allocOps ops heap).1, ∀ ref' ∈ (allocOps ops heap).1, ref.2 = ref'.2 → ref = ref'
  | [], heap => by
    rw [allocOps]
    exact ⟨fun y z hy hlt => absurd hlt (not_lt.mpr hy), fun z hz hlt => absurd hlt (not_lt.mpr hz),
      List.forall_mem_nil _⟩
  | (op, stamp) :: ops, heap => by
    have hone := alloc_unshared stamp heap
    obtain ⟨hbelow, hrefs, hdistinct⟩ := allocOps_unshared ops (alloc stamp heap).2
    obtain ⟨hstamp, hroot, hnext⟩ := alloc_allocates stamp heap
    have hkept := (allocOps_allocates ops (alloc stamp heap).2).unchanged
    have hold := alloc_refs stamp heap
    obtain ⟨hnewrefs, hnew⟩ := allocOps_refs ops (alloc stamp heap).2
    rw [allocOps_cons]
    dsimp only
    refine ⟨?_, ?_, ?_⟩
    · intro y z hy hylt hz hzlt entry he entry' he' hsame
      by_cases hy' : y < (alloc stamp heap).2.next
      · rw [hkept y (.inl hy')] at he
        have hentry := hold y hy hy' entry he
        by_cases hz' : z < (alloc stamp heap).2.next
        · rw [hkept z (.inl hz')] at he'
          exact hone y z hy hy' hz hz' entry he entry' he' hsame
        · have hentry' := hnew z (by omega) hzlt entry' he'
          omega
      · have hentry := hnew y (by omega) hylt entry he
        by_cases hz' : z < (alloc stamp heap).2.next
        · rw [hkept z (.inl hz')] at he'
          have hentry' := hold z hz hz' entry' he'
          omega
        · exact hbelow y z (by omega) hylt (by omega) hzlt entry he entry' he' hsame
    · intro z hz hlt entry he ref href
      by_cases hz' : z < (alloc stamp heap).2.next
      · rw [hkept z (.inl hz')] at he
        have hentry := hold z hz hz' entry he
        rcases List.mem_cons.mp href with rfl | href
        · dsimp only
          omega
        · have hnewref := hnewrefs ref href
          omega
      · rcases List.mem_cons.mp href with rfl | href
        · have hentry := hnew z (by omega) hlt entry he
          dsimp only
          omega
        · exact hrefs z (by omega) hlt entry he ref href
    · have hfirst : ∀ ref ∈ (allocOps ops (alloc stamp heap).2).1,
          (alloc stamp heap).1 ≠ ref.2 := by
        intro ref href
        have hnewref := hnewrefs ref href
        omega
      intro ref href ref' href' hsame
      rcases List.mem_cons.mp href with rfl | href
      · rcases List.mem_cons.mp href' with rfl | href'
        · rfl
        · exact absurd hsame (hfirst ref' href')
      · rcases List.mem_cons.mp href' with rfl | href'
        · exact absurd hsame.symm (hfirst ref href)
        · exact hdistinct ref href ref' href' hsame

end

/-- No node of a tree has one operation twice. -/
inductive Timestamp.UniqueOps : Timestamp → Prop
  | mk {msg : Bytes} {attestations : List Attestation} {ops : List (AnchorOp × Timestamp)}
      (hunique : (ops.map Prod.fst).Nodup) (h : ∀ entry ∈ ops, UniqueOps entry.2) :
      UniqueOps (.mk msg attestations ops)

theorem allocOps_fst : (ops : List (AnchorOp × Timestamp)) → (heap : Heap) →
    (allocOps ops heap).1.map Prod.fst = ops.map Prod.fst
  | [], heap => by
    rw [allocOps]
    rfl
  | (op, stamp) :: ops, heap => by
    rw [allocOps_cons, List.map_cons, List.map_cons, allocOps_fst ops]

mutual

theorem alloc_uniqueOps : (t : Timestamp) → (heap : Heap) → t.UniqueOps → ∀ z, heap.next ≤ z →
    z < (alloc t heap).2.next → (((alloc t heap).2.node z).ops.map Prod.fst).Nodup
  | .mk msg attestations ops, heap, h => by
    obtain ⟨hunique, hbelow⟩ := h
    intro z hz hlt
    rw [alloc_mk] at hlt ⊢
    dsimp only at hlt ⊢
    rw [Heap.next_put] at hlt
    by_cases hlast : z = (allocOps ops heap).2.next
    · rw [hlast, Heap.node_put_self, allocOps_fst]
      exact hunique
    · rw [Heap.node_put_of_ne hlast]
      exact allocOps_uniqueOps ops heap hbelow z hz (by omega)

theorem allocOps_uniqueOps : (ops : List (AnchorOp × Timestamp)) → (heap : Heap) →
    (∀ entry ∈ ops, entry.2.UniqueOps) → ∀ z, heap.next ≤ z →
      z < (allocOps ops heap).2.next → (((allocOps ops heap).2.node z).ops.map Prod.fst).Nodup
  | [], heap, _ => by
    rw [allocOps]
    exact fun z hz hlt => absurd hlt (not_lt.mpr hz)
  | (op, stamp) :: ops, heap, h => by
    rw [List.forall_mem_cons] at h
    intro z hz hlt
    rw [allocOps_cons] at hlt ⊢
    dsimp only at hlt ⊢
    by_cases hz' : z < (alloc stamp heap).2.next
    · rw [(allocOps_allocates ops (alloc stamp heap).2).unchanged z (.inl hz')]
      exact alloc_uniqueOps stamp heap h.1 z hz hz'
    · exact allocOps_uniqueOps ops _ h.2 z (by omega) hlt

end

/-! ## Two trees -/

def emptyHeap : Heap := { node := fun _ => {}, next := 0 }

/-- Two trees that are put into memory one after the other. -/
def heldApart (t u : Timestamp) : Nat × Nat × Heap :=
  let (x, heap) := alloc t emptyHeap
  let (y, heap) := alloc u heap
  (x, y, heap)

theorem emptyHeap_scoped : emptyHeap.Scoped := fun _ _ he => nomatch he

theorem emptyHeap_derived : emptyHeap.Derived H A := fun _ _ he => nomatch he

theorem alloc_below (hz : (alloc t heap).2.Below (alloc t heap).1 z) :
    heap.next ≤ z ∧ z < (alloc t heap).2.next := by
  obtain ⟨_, hroot, _⟩ := alloc_allocates t heap
  induction hz with
  | refl => exact ⟨hroot, alloc_lt t heap⟩
  | tail _ hedge ih =>
    obtain ⟨op, hop⟩ := hedge
    obtain ⟨hle, hlt⟩ := alloc_refs t heap _ ih.1 ih.2 _ hop
    exact ⟨hle, hlt.trans ih.2⟩

/-- What two trees are in memory when neither has been changed. -/
structure HeldApart (H : Host) (A : AnchorHost) (t u : Timestamp) (x y : Nat) (heap : Heap) :
    Prop where
  refs : heap.Scoped
  derived : heap.Derived H A
  msg_left : (heap.node x).msg = t.msg
  msg_right : (heap.node y).msg = u.msg
  reaches_left : ∀ a m, heap.Reaches x a m ↔ (a, m) ∈ reachable t
  reaches_right : ∀ a m, heap.Reaches y a m ↔ (a, m) ∈ reachable u
  ranked : ∃ rank, heap.Ranked rank ∧ rank x = rank y
  unshared : heap.Unshared x
  apart : heap.Apart x y
  uniqueOps : u.UniqueOps → heap.UniqueOps y

/-- **Two trees put into memory are ranked, share no node, and reach what they reach.** -/
theorem heldApart_spec {t u : Timestamp} (ht : t.Derived H A) (hu : u.Derived H A)
    (h : heldApart t u = (x, y, heap)) : HeldApart H A t u x y heap := by
  obtain ⟨rfl, hrest⟩ := Prod.mk.inj h
  obtain ⟨rfl, rfl⟩ := Prod.mk.inj hrest
  have hscoped := emptyHeap_scoped.alloc t
  have hallocates := (alloc_allocates u (alloc t emptyHeap).2).1
  have hx := alloc_lt t emptyHeap
  have hbelow : ∀ z, (alloc u (alloc t emptyHeap).2).2.Below (alloc t emptyHeap).1 z →
      z < (alloc t emptyHeap).2.next := by
    intro z hz
    induction hz with
    | refl => exact hx
    | tail _ hedge ih =>
      obtain ⟨op, hop⟩ := hedge
      rw [hallocates.unchanged _ (.inl ih)] at hop
      exact hscoped _ _ hop
  refine
    { refs := hscoped.alloc u
      derived := (emptyHeap_derived.alloc emptyHeap_scoped ht).alloc hscoped hu
      msg_left := ?_
      msg_right := alloc_msg u _
      reaches_left := ?_
      reaches_right := alloc_reaches u _ hscoped
      ranked := ?_
      unshared := ⟨?_, ?_⟩
      apart := ?_
      uniqueOps := ?_ }
  · rw [hallocates.unchanged _ (.inl hx), alloc_msg]
  · intro a m
    rw [hscoped.reaches_iff hallocates hx, alloc_reaches t _ emptyHeap_scoped]
  · obtain ⟨n, hn⟩ := alloc_levels t
    obtain ⟨n', hn'⟩ := alloc_levels u
    obtain ⟨rank, _, hroot, hlevels⟩ := hn (n + n') (by omega) emptyHeap fun _ => 0
    obtain ⟨rank', hold, hroot', hlevels'⟩ := hn' (n + n') (by omega) (alloc t emptyHeap).2 rank
    have hall : ∀ z, ∀ entry ∈ ((alloc u (alloc t emptyHeap).2).2.node z).ops,
        rank' entry.2 + 1 = rank' z := by
      intro z entry he
      by_cases hz : z < (alloc t emptyHeap).2.next
      · rw [hallocates.unchanged z (.inl hz)] at he
        have hentry := (alloc_refs t emptyHeap z (Nat.zero_le z) hz entry he).2
        rw [hold z hz, hold _ (hentry.trans hz), hlevels z (Nat.zero_le z) hz entry he]
      · by_cases hz' : z < (alloc u (alloc t emptyHeap).2).2.next
        · exact hlevels' z (by omega) hz' entry he
        · rw [hallocates.unchanged z (.inr (by omega)),
            (alloc_allocates t emptyHeap).1.unchanged z (.inr (by omega))] at he
          cases he
    refine ⟨rank', ⟨?_, ?_⟩, by rw [hroot', hold _ hx, hroot]⟩
    · intro z entry he
      rw [← hall z entry he]
      exact Nat.lt_succ_self _
    · intro z w hzw _ entry he entry' he' _
      have hz := hall z entry he
      have hw := hall w entry' he'
      omega
  · intro z hz entry he
    have hlt := hbelow z hz
    rw [hallocates.unchanged z (.inl hlt)] at he
    have hentry := (alloc_refs t emptyHeap z (Nat.zero_le z) hlt entry he).2
    rw [(alloc_allocates t emptyHeap).2.2] at hlt
    omega
  · intro y z hy hz entry he entry' he'
    rw [hallocates.unchanged y (.inl (hbelow y hy))] at he
    rw [hallocates.unchanged z (.inl (hbelow z hz))] at he'
    exact alloc_unshared t emptyHeap y z (Nat.zero_le y) (hbelow y hy) (Nat.zero_le z)
      (hbelow z hz) entry he entry' he'
  · intro z hz hz'
    exact absurd (hbelow z hz) (not_lt.mpr (alloc_below hz').1)
  · intro hunique z hz entry he entry' he' hop
    obtain ⟨hle, hlt⟩ := alloc_below hz
    exact List.inj_on_of_nodup_map (alloc_uniqueOps u _ hunique z hle hlt) he he' hop

end CoolSdk.Anchor
