import CoolSdk.Phala.AnchorWriter
import Mathlib.Logic.Function.Basic
import Mathlib.Logic.Relation

/-!
# Proofs in memory

A proof in memory is a graph: a node refers to the nodes of its operations, and several may refer
to one. Merging two proofs changes nodes in place while it goes through them. All that a merge
does to the graph is to add to a node what another node about the same message has, so that a
property of the graph that one such addition keeps is kept by every merge, however it ends.
-/

namespace CoolSdk.Anchor

/-- A node whose operations refer to their results. -/
structure HeapNode where
  msg : Bytes := []
  attestations : List Attestation := []
  ops : List (AnchorOp × Nat) := []
  deriving DecidableEq

structure Heap where
  node : Nat → HeapNode
  /-- The nodes from here on are not in use. -/
  next : Nat

namespace Heap

def set (heap : Heap) (x : Nat) (node : HeapNode) : Heap :=
  { heap with node := Function.update heap.node x node }

/-- `into.ops.push(entry)`. -/
def pushOp (heap : Heap) (x : Nat) (entry : AnchorOp × Nat) : Heap :=
  heap.set x { heap.node x with ops := (heap.node x).ops ++ [entry] }

def setAttestations (heap : Heap) (x : Nat) (attestations : List Attestation) : Heap :=
  heap.set x { heap.node x with attestations }

end Heap

/-- What is thrown, if anything is, and the heap that is left. -/
abbrev Outcome := Except String Unit × Heap

/-- A call deeper than the stack. -/
def tooDeep (heap : Heap) : Outcome := (.error "Maximum call stack size exceeded", heap)

def Outcome.andThen (r : Outcome) (k : Heap → Outcome) : Outcome :=
  match r with
  | (.ok (), heap) => k heap
  | (.error e, heap) => (.error e, heap)

/-- Some attestations, and those of others that are not among them. -/
def uniteAttestations (mine theirs : List Attestation) : List Attestation :=
  theirs.foldl (fun mine a =>
    if mine.any fun existing => attestationKey existing = attestationKey a then mine
    else mine ++ [a]) mine

def findOp (ops : List (AnchorOp × Nat)) (op : AnchorOp) : Option (AnchorOp × Nat) :=
  ops.find? fun existing => opKey existing.1 = opKey op

/-- The loop over the operations of a node from a position on. It sees what the node has when it
gets there. -/
def mergeOps (next : Nat → Nat → Heap → Outcome) (into source : Nat) : Nat → Nat → Heap → Outcome
  | 0, _, heap => tooDeep heap
  | fuel + 1, i, heap =>
    match (heap.node source).ops[i]? with
    | none => (.ok (), heap)
    | some (op, stamp) =>
      match findOp (heap.node into).ops op with
      | some (_, mine) => (next mine stamp heap).andThen (mergeOps next into source fuel (i + 1))
      | none => mergeOps next into source fuel (i + 1) (heap.pushOp into (op, stamp))

/-- Unite a proof with another about the same message. The fuel bounds the depth of the calls and
the length of the loops. -/
def merge : Nat → Nat → Nat → Heap → Outcome
  | 0, _, _, heap => tooDeep heap
  | fuel + 1, into, source, heap =>
    if (heap.node into).msg ≠ (heap.node source).msg then
      (.error "refusing to merge proofs about different messages", heap)
    else
      mergeOps (merge fuel) into source fuel 0 (heap.setAttestations into
        (uniteAttestations (heap.node into).attestations (heap.node source).attestations))

/-- The attestations that a node reaches, each with the message it is about. -/
def Heap.reachable (heap : Heap) : Nat → Nat → Except String (List (Attestation × Bytes))
  | 0, _ => .error "Maximum call stack size exceeded"
  | fuel + 1, x => do
    let below ← (heap.node x).ops.mapM fun entry => heap.reachable fuel entry.2
    return (heap.node x).attestations.map (fun a => (a, (heap.node x).msg)) ++ below.flatten

/-! ## What one addition does -/

/-- A node takes over attestations, or an operation that it does not have, from a node about the
same message that it is matched with. -/
inductive Absorb (M : Nat → Nat → Prop) (heap : Heap) : Heap → Prop
  | attestations {x y : Nat} (hM : M x y) (hmsg : (heap.node x).msg = (heap.node y).msg) :
      Absorb M heap (heap.setAttestations x
        (uniteAttestations (heap.node x).attestations (heap.node y).attestations))
  | op {x y : Nat} {entry : AnchorOp × Nat} (hM : M x y)
      (hmsg : (heap.node x).msg = (heap.node y).msg) (he : entry ∈ (heap.node y).ops)
      (hnew : findOp (heap.node x).ops entry.1 = none) : Absorb M heap (heap.pushOp x entry)

variable {heap heap' : Heap} {x y : Nat} {M : Nat → Nat → Prop}

namespace Heap

@[simp] theorem node_set_self (heap : Heap) (x : Nat) (node : HeapNode) :
    (heap.set x node).node x = node := Function.update_self ..

theorem node_set_of_ne (h : y ≠ x) (node : HeapNode) : (heap.set x node).node y = heap.node y :=
  Function.update_of_ne h ..

@[simp] theorem next_set (heap : Heap) (x : Nat) (node : HeapNode) :
    (heap.set x node).next = heap.next := rfl

theorem msg_set {node : HeapNode} (h : node.msg = (heap.node x).msg) (y : Nat) :
    ((heap.set x node).node y).msg = (heap.node y).msg := by
  by_cases hy : y = x
  · rw [hy, node_set_self, h]
  · rw [node_set_of_ne hy]

/-- What holds of a node after a change of one holds of the changed one and held of the others. -/
theorem forall_node_set {p : Nat → HeapNode → Prop} {node : HeapNode} (hx : p x node)
    (h : ∀ y, p y (heap.node y)) (y : Nat) : p y ((heap.set x node).node y) := by
  by_cases hy : y = x
  · rw [hy, node_set_self]
    exact hx
  · rw [node_set_of_ne hy]
    exact h y

end Heap

theorem Absorb.msg_eq (h : Absorb M heap heap') (x : Nat) :
    (heap'.node x).msg = (heap.node x).msg := by
  cases h with
  | attestations hM hmsg => exact Heap.msg_set (by rfl) x
  | op hM hmsg he hnew => exact Heap.msg_set (by rfl) x

theorem findOp_eq_some {ops : List (AnchorOp × Nat)} {op : AnchorOp} {entry : AnchorOp × Nat}
    (h : findOp ops op = some entry) : entry ∈ ops ∧ opKey entry.1 = opKey op :=
  ⟨List.mem_of_find?_eq_some h, by simpa only [decide_eq_true_eq] using List.find?_some h⟩

/-! ## What every merge keeps -/

section

variable {I : Heap → Prop} {next : Nat → Nat → Heap → Outcome}
  (hclosed : ∀ {heap x y}, I heap → M x y → (heap.node x).msg = (heap.node y).msg →
    ∀ entry ∈ (heap.node y).ops, ∀ mine, findOp (heap.node x).ops entry.1 = some mine →
      M mine.2 entry.2)
  (hstep : ∀ {heap heap'}, I heap → Absorb M heap heap' → I heap')

include hclosed hstep

theorem mergeOps_keeps
    (hnext : ∀ {x y heap}, I heap → M x y → I (next x y heap).2 ∧
      ∀ z, ((next x y heap).2.node z).msg = (heap.node z).msg)
    (hM : M x y) (fuel i : Nat) (hI : I heap) (hmsg : (heap.node x).msg = (heap.node y).msg) :
    I (mergeOps next x y fuel i heap).2 ∧
      ∀ z, ((mergeOps next x y fuel i heap).2.node z).msg = (heap.node z).msg := by
  induction fuel generalizing i heap with
  | zero => exact ⟨hI, fun _ => rfl⟩
  | succ fuel ih =>
    rw [mergeOps]
    cases hentry : (heap.node y).ops[i]? with
    | none => exact ⟨hI, fun _ => rfl⟩
    | some entry =>
      obtain ⟨op, stamp⟩ := entry
      have hmem := List.mem_of_getElem? hentry
      dsimp only
      cases hfind : findOp (heap.node x).ops op with
      | none =>
        have habsorb : Absorb M heap (heap.pushOp x (op, stamp)) := .op hM hmsg hmem hfind
        have hsame := habsorb.msg_eq
        obtain ⟨hrest, hmsgs⟩ := ih (i + 1) (hstep hI habsorb)
          (by rw [hsame, hsame, hmsg])
        exact ⟨hrest, fun z => (hmsgs z).trans (hsame z)⟩
      | some mine =>
        obtain ⟨op', mine⟩ := mine
        obtain ⟨hbelow, hsame⟩ := hnext hI (hclosed hI hM hmsg _ hmem _ hfind)
        dsimp only at hbelow hsame ⊢
        cases hrun : next mine stamp heap with
        | mk result after =>
          rw [hrun] at hbelow hsame
          cases result with
          | error e => exact ⟨hbelow, hsame⟩
          | ok _ =>
            obtain ⟨hrest, hmsgs⟩ := ih (i + 1) hbelow (by rw [hsame, hsame, hmsg])
            exact ⟨hrest, fun z => (hmsgs z).trans (hsame z)⟩

/-- **What every addition between matched nodes keeps, every merge of matched nodes keeps**, and no
merge changes a message. -/
theorem merge_keeps (fuel : Nat) (hI : I heap) (hM : M x y) :
    I (merge fuel x y heap).2 ∧
      ∀ z, ((merge fuel x y heap).2.node z).msg = (heap.node z).msg := by
  induction fuel generalizing x y heap with
  | zero => exact ⟨hI, fun _ => rfl⟩
  | succ fuel ih =>
    rw [merge]
    split_ifs with hmsg
    · exact ⟨hI, fun _ => rfl⟩
    · have hmsg := not_not.mp hmsg
      have habsorb : Absorb M heap _ := .attestations hM hmsg
      have hsame := habsorb.msg_eq
      obtain ⟨hrest, hmsgs⟩ := mergeOps_keeps hclosed hstep (fun hI hM => ih hI hM) hM
        fuel 0 (hstep hI habsorb) (by rw [hsame, hsame, hmsg])
      exact ⟨hrest, fun z => (hmsgs z).trans (hsame z)⟩

end

end CoolSdk.Anchor
