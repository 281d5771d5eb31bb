import CoolSdk.Phala.AnchorPaths
import CoolSdk.Phala.AnchorSyntax

/-!
# How a proof is spelled

The writer of a proof spells it in the syntax of proof files: what it writes of a tree are the
items of the tree with every node sorted. Sorting changes neither what a node has nor what it is
about.
-/

namespace CoolSdk.Anchor

/-- An attestation as the writer spells it. -/
def spellAttestation (a : Attestation) : Item :=
  .attestation (attestationTag a) (writeVaruint (attestationPayload a).length)
    (attestationPayload a)

/-- An argument as the writer spells it. -/
def spellArg (arg : Option Bytes) : Option (Bytes × Bytes) :=
  arg.map fun arg => (writeVaruint arg.length, arg)

mutual

/-- The items of a node, in the order it has them. -/
def Timestamp.items : Timestamp → List Item
  | .mk _ attestations ops => attestations.map spellAttestation ++ stampItems ops

def stampItems : List (AnchorOp × Timestamp) → List Item
  | [] => []
  | (op, stamp) :: ops => .op op.tag (spellArg op.arg) stamp.items :: stampItems ops

end

mutual

/-- The tree with the attestations and the operations of every node sorted. -/
def Timestamp.sorted : Timestamp → Timestamp
  | .mk msg attestations ops => .mk msg (sortAttestations attestations) (sortOps (sortedStamps ops))

def sortedStamps : List (AnchorOp × Timestamp) → List (AnchorOp × Timestamp)
  | [] => []
  | (op, stamp) :: ops => (op, stamp.sorted) :: sortedStamps ops

end

/-- Every node says something. -/
inductive Timestamp.NonEmpty : Timestamp → Prop
  | mk {msg : Bytes} {attestations : List Attestation} {ops : List (AnchorOp × Timestamp)}
      (hne : attestations ≠ [] ∨ ops ≠ []) (h : ∀ entry ∈ ops, NonEmpty entry.2) :
      NonEmpty (.mk msg attestations ops)

/-- Attestations and operations are in order at every node. -/
inductive Timestamp.Sorted : Timestamp → Prop
  | mk {msg : Bytes} {attestations : List Attestation} {ops : List (AnchorOp × Timestamp)}
      (hattestations : attestations.Pairwise fun a b => compareAttestations a b ≤ 0)
      (hops : ops.Pairwise fun a b => compareOps a.1 b.1 ≤ 0)
      (h : ∀ entry ∈ ops, Sorted entry.2) : Sorted (.mk msg attestations ops)

variable {H : Host} {A : AnchorHost} {t : Timestamp}

/-! ## Sorting -/

theorem stampItems_eq_map (ops : List (AnchorOp × Timestamp)) :
    stampItems ops = ops.map fun entry =>
      .op entry.1.tag (spellArg entry.1.arg) entry.2.items := by
  induction ops with
  | nil => rfl
  | cons entry ops ih => rw [stampItems, ih, List.map_cons]

theorem sortedStamps_eq_map (ops : List (AnchorOp × Timestamp)) :
    sortedStamps ops = ops.map fun entry => (entry.1, entry.2.sorted) := by
  induction ops with
  | nil => rfl
  | cons entry ops ih => rw [sortedStamps, ih, List.map_cons]

/-- Operations are sorted whatever goes with them. -/
theorem sortOps_map {α β : Type} (f : α → β) (ops : List (AnchorOp × α)) :
    sortOps (ops.map fun entry => (entry.1, f entry.2)) =
      (sortOps ops).map fun entry => (entry.1, f entry.2) := by
  rw [sortOps, sortOps, List.map_mergeSort]
  intro a _ b _
  rfl

theorem mem_sortAttestations {a : Attestation} {attestations : List Attestation} :
    a ∈ sortAttestations attestations ↔ a ∈ attestations := List.mem_mergeSort

theorem mem_sortOps {α : Type} {entry : AnchorOp × α} {ops : List (AnchorOp × α)} :
    entry ∈ sortOps ops ↔ entry ∈ ops := List.mem_mergeSort

theorem sortAttestations_eq_nil {attestations : List Attestation} :
    sortAttestations attestations = [] ↔ attestations = [] := by
  rw [← List.length_eq_zero_iff, sortAttestations, List.length_mergeSort, List.length_eq_zero_iff]

theorem sortOps_eq_nil {α : Type} {ops : List (AnchorOp × α)} : sortOps ops = [] ↔ ops = [] := by
  rw [← List.length_eq_zero_iff, sortOps, List.length_mergeSort, List.length_eq_zero_iff]

/-- What holds below a sorted node are the sorted nodes below it. -/
theorem mem_sorted {entry : AnchorOp × Timestamp} {ops : List (AnchorOp × Timestamp)} :
    entry ∈ sortOps (sortedStamps ops) ↔ ∃ e ∈ ops, (e.1, e.2.sorted) = entry := by
  rw [mem_sortOps, sortedStamps_eq_map, List.mem_map]

@[simp] theorem Timestamp.msg_sorted (t : Timestamp) : t.sorted.msg = t.msg := by
  cases t with
  | mk msg attestations ops =>
    rw [sorted]
    rfl

/-- A sorted tree is what it is when it is sorted. -/
theorem Timestamp.Sorted.sorted_eq (h : t.Sorted) : t.sorted = t := by
  induction h with
  | @mk msg attestations ops hattestations hops h ih =>
    have hstamps : sortedStamps ops = ops := by
      rw [sortedStamps_eq_map, List.map_congr_left (g := id), List.map_id]
      intro entry he
      rw [ih entry he]
      rfl
    rw [sorted, hstamps, sortAttestations, sortOps, List.mergeSort_of_pairwise,
      List.mergeSort_of_pairwise]
    · simpa only [decide_eq_true_eq] using hops
    · simpa only [decide_eq_true_eq] using hattestations

theorem Timestamp.NonEmpty.sorted (h : t.NonEmpty) : t.sorted.NonEmpty := by
  induction h with
  | @mk msg attestations ops hne h ih =>
    rw [Timestamp.sorted]
    refine .mk ?_ ?_
    · rw [Ne, Ne, sortAttestations_eq_nil, sortOps_eq_nil, sortedStamps_eq_map, List.map_eq_nil_iff]
      exact hne
    · intro entry he
      obtain ⟨e, hmem, rfl⟩ := mem_sorted.mp he
      exact ih e hmem

theorem Timestamp.Derived.sorted (h : t.Derived H A) : t.sorted.Derived H A := by
  induction h with
  | @mk msg attestations ops hop hstamp ih =>
    rw [Timestamp.sorted]
    refine .mk ?_ ?_
    · intro entry he
      obtain ⟨e, hmem, rfl⟩ := mem_sorted.mp he
      rw [msg_sorted]
      exact hop e hmem
    · intro entry he
      obtain ⟨e, hmem, rfl⟩ := mem_sorted.mp he
      exact ih e hmem

/-! ## Writing -/

theorem print_spellAttestation (a : Attestation) :
    (spellAttestation a).print = 0x00 :: writeAttestation a := by
  rw [spellAttestation, Item.print, writeAttestation, writeVarbytes, List.append_assoc]

theorem print_op (op : AnchorOp) (items : List Item) :
    (Item.op op.tag (spellArg op.arg) items).print = writeOp op ++ printItems items := by
  rw [Item.print, writeOp]
  cases op.arg with
  | none => rfl
  | some arg => rfl

/-- A separator stands before each item but the last. -/
theorem separate_print (items : List Item) :
    separate (items.map Item.print) = printItems items := by
  induction items with
  | nil =>
    rw [printItems]
    rfl
  | cons item items ih =>
    cases items with
    | nil => rw [printItems_singleton, List.map_singleton, separate]
    | cons item' items =>
      rw [printItems_cons item (List.cons_ne_nil _ _), ← ih]
      rfl

theorem writeStamps_eq {ops : List (AnchorOp × Timestamp)}
    (h : ∀ entry ∈ ops, writeTimestamp entry.2 = .ok (printItems entry.2.sorted.items)) :
    writeStamps ops = .ok (ops.map fun entry => (entry.1, printItems entry.2.sorted.items)) := by
  induction ops with
  | nil => rfl
  | cons entry ops ih =>
    rw [List.forall_mem_cons] at h
    rw [writeStamps, h.1, ok_bind, ih h.2]
    rfl

/-- **What is written of a tree are the items of the sorted tree.** -/
theorem Timestamp.NonEmpty.writeTimestamp (h : t.NonEmpty) :
    writeTimestamp t = .ok (printItems t.sorted.items) := by
  induction h with
  | @mk msg attestations ops hne h ih =>
    have hsays : ¬(attestations = [] ∧
        (ops.map fun entry => (entry.1, printItems entry.2.sorted.items)) = []) := by
      rw [List.map_eq_nil_iff, not_and_or]
      exact hne
    have hattestations : (sortAttestations attestations).map (fun a => 0x00 :: writeAttestation a) =
        ((sortAttestations attestations).map spellAttestation).map Item.print := by
      rw [List.map_map]
      exact List.map_congr_left fun a _ => (print_spellAttestation a).symm
    have hops : (sortOps (ops.map fun entry => (entry.1, printItems entry.2.sorted.items))).map
          (fun entry => writeOp entry.1 ++ entry.2) =
        (stampItems (sortOps (sortedStamps ops))).map Item.print := by
      rw [sortedStamps_eq_map, sortOps_map (fun stamp : Timestamp => stamp.sorted),
        sortOps_map (fun stamp : Timestamp => printItems stamp.sorted.items), stampItems_eq_map,
        List.map_map, List.map_map, List.map_map]
      exact List.map_congr_left fun entry _ => (print_op _ _).symm
    rw [Anchor.writeTimestamp, writeStamps_eq ih, ok_bind]
    dsimp only
    rw [if_neg hsays, hattestations, hops, ← List.map_append, separate_print, Timestamp.sorted,
      items]
    rfl

theorem Timestamp.NonEmpty.serialiseProof (h : t.NonEmpty) (digest : Bytes) :
    serialiseProof digest t = .ok (ProofFile.print
      ⟨writeVaruint MAJOR_VERSION, 0x08, digest, t.sorted.items, []⟩) := by
  rw [Anchor.serialiseProof, h.writeTimestamp, ok_bind, ProofFile.print, List.append_nil]
  rfl

end CoolSdk.Anchor
