import CoolSdk.Phala.AnchorHeap
import CoolSdk.Phala.AnchorPaths

/-!
# Merging proofs

A merge loses nothing, whatever the two proofs share: what a proof reaches after it has merged
another is what one of them reached before. It returns where the nodes have ranks that fall along
the operations and that matched nodes have in common, as they have in proofs that share no node.
-/

namespace CoolSdk.Anchor

variable {H : Host} {A : AnchorHost} {heap heap' : Heap} {x y : Nat} {M : Nat → Nat → Prop}

/-! ## Keys -/

theorem writeVarbytes_inj {b b' rest rest' : Bytes}
    (h : writeVarbytes b ++ rest = writeVarbytes b' ++ rest') : b = b' ∧ rest = rest' := by
  rw [writeVarbytes, writeVarbytes, List.append_assoc, List.append_assoc] at h
  obtain ⟨hlen, hbytes⟩ := (isVaruint_write _).append_inj (isVaruint_write _) h
  exact List.append_inj hbytes (writeVaruint_injective hlen)

theorem opKey_injective : Function.Injective opKey := by
  rintro ⟨tag, arg⟩ ⟨tag', arg'⟩ h
  obtain ⟨htag, harg⟩ := List.cons.inj h
  obtain rfl : tag = tag' := htag
  have hne : ∀ arg, writeVarbytes arg ≠ [] := by
    intro arg
    rw [writeVarbytes, Ne, List.append_eq_nil_iff, not_and_or]
    exact .inl (writeVaruint_ne_nil _)
  cases arg with
  | none =>
    cases arg' with
    | none => rfl
    | some arg' => exact absurd harg.symm (hne arg')
  | some arg =>
    cases arg' with
    | none => exact absurd harg (hne arg)
    | some arg' =>
      have hsame : writeVarbytes arg ++ [] = writeVarbytes arg' ++ [] :=
        congrArg (fun bytes => bytes ++ []) harg
      rw [(writeVarbytes_inj hsame).1]

/-- An attestation of something unknown has a tag of its own. -/
def Attestation.Regular : Attestation → Prop
  | .unknown tag _ => tag.length = 8 ∧ ¬KnownTag tag
  | _ => True

theorem Attestation.Regular.length_tag {a : Attestation} (h : a.Regular) :
    (attestationTag a).length = 8 := by
  cases a with
  | unknown tag payload => exact h.1
  | _ => rfl

/-- The keys of attestations that have tags of their own tell them apart. -/
theorem attestationKey_inj {a a' : Attestation} (h : a.Regular) (h' : a'.Regular)
    (hkey : attestationKey a = attestationKey a') : a = a' := by
  obtain ⟨htag, hbytes⟩ := List.append_inj hkey (h.length_tag.trans h'.length_tag.symm)
  have hpayload : attestationPayload a = attestationPayload a' := by
    have hsame : writeVarbytes (attestationPayload a) ++ [] =
        writeVarbytes (attestationPayload a') ++ [] := congrArg (fun bytes => bytes ++ []) hbytes
    exact (writeVarbytes_inj hsame).1
  have hunknown : ∀ {tag payload}, (Attestation.unknown tag payload).Regular →
      ∀ known ∈ [TAG_PENDING, TAG_BITCOIN, TAG_LITECOIN, TAG_ETHEREUM], tag ≠ known := by
    rintro tag payload ⟨_, hknown⟩ known hmem rfl
    simp only [List.mem_cons, List.not_mem_nil, or_false] at hmem
    exact hknown hmem
  cases a with
  | pending uri =>
    cases a' with
    | pending uri' =>
      have hsame : writeVarbytes (utf8 uri) ++ [] = writeVarbytes (utf8 uri') ++ [] :=
        congrArg (fun bytes => bytes ++ []) hpayload
      rw [utf8_injective (writeVarbytes_inj hsame).1]
    | unknown tag payload => exact absurd htag.symm (hunknown h' _ (by simp [attestationTag]))
    | _ => simp [attestationTag, TAG_PENDING, TAG_BITCOIN, TAG_LITECOIN, TAG_ETHEREUM] at htag
  | bitcoin height =>
    cases a' with
    | bitcoin height' => rw [writeVaruint_injective hpayload]
    | unknown tag payload => exact absurd htag.symm (hunknown h' _ (by simp [attestationTag]))
    | _ => simp [attestationTag, TAG_PENDING, TAG_BITCOIN, TAG_LITECOIN, TAG_ETHEREUM] at htag
  | litecoin height =>
    cases a' with
    | litecoin height' => rw [writeVaruint_injective hpayload]
    | unknown tag payload => exact absurd htag.symm (hunknown h' _ (by simp [attestationTag]))
    | _ => simp [attestationTag, TAG_PENDING, TAG_BITCOIN, TAG_LITECOIN, TAG_ETHEREUM] at htag
  | ethereum height =>
    cases a' with
    | ethereum height' => rw [writeVaruint_injective hpayload]
    | unknown tag payload => exact absurd htag.symm (hunknown h' _ (by simp [attestationTag]))
    | _ => simp [attestationTag, TAG_PENDING, TAG_BITCOIN, TAG_LITECOIN, TAG_ETHEREUM] at htag
  | unknown tag payload =>
    cases a' with
    | unknown tag' payload' =>
      obtain rfl : tag = tag' := htag
      obtain rfl : payload = payload' := hpayload
      rfl
    | _ => exact absurd htag (hunknown h _ (by simp [attestationTag]))

/-! ## Attestations -/

theorem mem_uniteAttestations {mine theirs : List Attestation} {a : Attestation}
    (h : a ∈ uniteAttestations mine theirs) : a ∈ mine ∨ a ∈ theirs := by
  induction theirs generalizing mine with
  | nil => exact .inl h
  | cons b theirs ih =>
    rw [uniteAttestations, List.foldl_cons] at h
    rcases ih h with hmine | htheirs
    · split_ifs at hmine
      · exact .inl hmine
      · rcases List.mem_append.mp hmine with hmine | hb
        · exact .inl hmine
        · exact .inr (List.mem_cons.mpr (.inl (List.mem_singleton.mp hb)))
    · exact .inr (List.mem_cons_of_mem _ htheirs)

theorem prefix_uniteAttestations (mine theirs : List Attestation) :
    mine <+: uniteAttestations mine theirs := by
  induction theirs generalizing mine with
  | nil => exact List.prefix_rfl
  | cons b theirs ih =>
    rw [uniteAttestations, List.foldl_cons]
    refine List.IsPrefix.trans ?_ (ih _)
    split_ifs
    · exact List.prefix_rfl
    · exact List.prefix_append _ _

/-- What is taken over is there under its key. -/
theorem key_mem_uniteAttestations (mine : List Attestation) {theirs : List Attestation}
    {a : Attestation} (h : a ∈ theirs) :
    ∃ a' ∈ uniteAttestations mine theirs, attestationKey a' = attestationKey a := by
  induction theirs generalizing mine with
  | nil => cases h
  | cons b theirs ih =>
    rcases List.mem_cons.mp h with rfl | h
    · have hthere : ∃ a' ∈ (if mine.any fun existing => attestationKey existing = attestationKey a
          then mine else mine ++ [a]), attestationKey a' = attestationKey a := by
        split_ifs with hany
        · simpa only [List.any_eq_true, decide_eq_true_eq] using hany
        · exact ⟨a, List.mem_append_right _ (List.mem_singleton_self a), rfl⟩
      obtain ⟨a', ha', hkey⟩ := hthere
      exact ⟨a', (prefix_uniteAttestations _ theirs).subset ha', hkey⟩
    · exact ih _ h

theorem uniteAttestations_eq_self {mine theirs : List Attestation}
    (h : ∀ a ∈ theirs, ∃ a' ∈ mine, attestationKey a' = attestationKey a) :
    uniteAttestations mine theirs = mine := by
  induction theirs with
  | nil => rfl
  | cons b theirs ih =>
    rw [List.forall_mem_cons] at h
    have hany : (mine.any fun existing => attestationKey existing = attestationKey b) = true := by
      simpa only [List.any_eq_true, decide_eq_true_eq] using h.1
    rw [uniteAttestations, List.foldl_cons, if_pos hany]
    exact ih h.2

/-! ## Growing -/

/-- A node that has kept what it had. -/
structure HeapNode.Grows (node node' : HeapNode) : Prop where
  msg : node'.msg = node.msg
  attestations : node.attestations <+: node'.attestations
  ops : node.ops <+: node'.ops

theorem HeapNode.Grows.refl (node : HeapNode) : node.Grows node :=
  ⟨rfl, List.prefix_rfl, List.prefix_rfl⟩

theorem HeapNode.Grows.trans {node node' node'' : HeapNode} (h : node.Grows node')
    (h' : node'.Grows node'') : node.Grows node'' :=
  ⟨h'.msg.trans h.msg, h.attestations.trans h'.attestations, h.ops.trans h'.ops⟩

theorem HeapNode.Grows.antisymm {node node' : HeapNode} (h : node.Grows node')
    (h' : node'.Grows node) : node = node' := by
  obtain ⟨msg, attestations, ops⟩ := node
  obtain ⟨msg', attestations', ops'⟩ := node'
  obtain rfl : msg' = msg := h.msg
  obtain rfl : attestations = attestations' :=
    h.attestations.eq_of_length_le h'.attestations.length_le
  obtain rfl : ops = ops' := h.ops.eq_of_length_le h'.ops.length_le
  rfl

namespace Heap

def Grows (heap heap' : Heap) : Prop := ∀ x, (heap.node x).Grows (heap'.node x)

theorem Grows.refl (heap : Heap) : heap.Grows heap := fun _ => .refl _

theorem Grows.trans {heap'' : Heap} (h : heap.Grows heap') (h' : heap'.Grows heap'') :
    heap.Grows heap'' := fun x => (h x).trans (h' x)

def Edge (heap : Heap) (x y : Nat) : Prop := ∃ op, (op, y) ∈ (heap.node x).ops

/-- A node that a path of operations leads to. -/
def Below (heap : Heap) : Nat → Nat → Prop := Relation.ReflTransGen heap.Edge

/-- What is attested below a node, and the message it is about. -/
def Reaches (heap : Heap) (x : Nat) (a : Attestation) (m : Bytes) : Prop :=
  ∃ y, heap.Below x y ∧ a ∈ (heap.node y).attestations ∧ (heap.node y).msg = m

/-- What is attested below a node under a key. -/
def ReachesKey (heap : Heap) (x : Nat) (k m : Bytes) : Prop :=
  ∃ a, attestationKey a = k ∧ heap.Reaches x a m

/-- Every message is what the operation makes of the message of the node that has it. -/
def Derived (H : Host) (A : AnchorHost) (heap : Heap) : Prop :=
  ∀ x, ∀ entry ∈ (heap.node x).ops,
    applyOp H A entry.1 (heap.node x).msg = .ok (heap.node entry.2).msg

theorem Grows.below (h : heap.Grows heap') (hbelow : heap.Below x y) : heap'.Below x y := by
  refine Relation.ReflTransGen.mono ?_ _ _ hbelow
  rintro u v ⟨op, hop⟩
  exact ⟨op, (h u).ops.subset hop⟩

theorem Grows.reaches (h : heap.Grows heap') {a : Attestation} {m : Bytes}
    (hreaches : heap.Reaches x a m) : heap'.Reaches x a m := by
  obtain ⟨y, hbelow, ha, rfl⟩ := hreaches
  exact ⟨y, h.below hbelow, (h y).attestations.subset ha, (h y).msg⟩

theorem Grows.reachesKey (h : heap.Grows heap') {k m : Bytes} (hreaches : heap.ReachesKey x k m) :
    heap'.ReachesKey x k m := by
  obtain ⟨a, hk, ha⟩ := hreaches
  exact ⟨a, hk, h.reaches ha⟩

theorem reaches_iff {a : Attestation} {m : Bytes} :
    heap.Reaches x a m ↔ a ∈ (heap.node x).attestations ∧ (heap.node x).msg = m ∨
      ∃ entry ∈ (heap.node x).ops, heap.Reaches entry.2 a m := by
  constructor
  · rintro ⟨y, hbelow, ha, hm⟩
    rcases hbelow.cases_head with rfl | ⟨z, ⟨op, hop⟩, hz⟩
    · exact .inl ⟨ha, hm⟩
    · exact .inr ⟨(op, z), hop, y, hz, ha, hm⟩
  · rintro (⟨ha, hm⟩ | ⟨entry, he, y, hbelow, ha, hm⟩)
    · exact ⟨x, .refl, ha, hm⟩
    · exact ⟨y, .head ⟨entry.1, he⟩ hbelow, ha, hm⟩

end Heap

theorem Heap.grows_setAttestations (heap : Heap) (x : Nat) (theirs : List Attestation) :
    heap.Grows (heap.setAttestations x (uniteAttestations (heap.node x).attestations theirs)) := by
  apply Heap.forall_node_set
  · exact ⟨rfl, prefix_uniteAttestations _ _, List.prefix_rfl⟩
  · exact fun y => .refl _

theorem Heap.grows_pushOp (heap : Heap) (x : Nat) (entry : AnchorOp × Nat) :
    heap.Grows (heap.pushOp x entry) := by
  apply Heap.forall_node_set
  · exact ⟨rfl, List.prefix_rfl, List.prefix_append _ _⟩
  · exact fun y => .refl _

theorem Absorb.grows (h : Absorb M heap heap') : heap.Grows heap' := by
  cases h with
  | attestations hM hmsg => exact heap.grows_setAttestations _ _
  | op hM hmsg he hnew => exact heap.grows_pushOp _ _

/-- **A merge only adds**, however it ends. -/
theorem merge_grows (fuel x y : Nat) (heap : Heap) : heap.Grows (merge fuel x y heap).2 := by
  have hkeeps := merge_keeps (I := heap.Grows) (M := fun _ _ => True) (x := x) (y := y)
    (fun _ _ _ _ _ _ _ => trivial) (fun hI habsorb => hI.trans habsorb.grows) fuel
    (Heap.Grows.refl heap) trivial
  exact hkeeps.1

/-! ## A union -/

namespace Absorb

/-- An operation that a node has after an addition was one of it or of a node that it is matched
with. -/
theorem mem_ops (h : Absorb M heap heap') {entry : AnchorOp × Nat}
    (he : entry ∈ (heap'.node x).ops) : entry ∈ (heap.node x).ops ∨ ∃ y, M x y ∧
      (heap.node x).msg = (heap.node y).msg ∧ entry ∈ (heap.node y).ops := by
  cases h with
  | @attestations z w hM hmsg =>
    left
    by_cases hx : x = z
    · subst hx
      rwa [Heap.setAttestations, Heap.node_set_self] at he
    · rwa [Heap.setAttestations, Heap.node_set_of_ne hx] at he
  | @op z w entry' hM hmsg hentry hnew =>
    by_cases hx : x = z
    · subst hx
      rw [Heap.pushOp, Heap.node_set_self] at he
      rcases List.mem_append.mp he with he | he
      · exact .inl he
      · obtain rfl := List.mem_singleton.mp he
        exact .inr ⟨w, hM, hmsg, hentry⟩
    · rw [Heap.pushOp, Heap.node_set_of_ne hx] at he
      exact .inl he

/-- So was an attestation. -/
theorem mem_attestations (h : Absorb M heap heap') {a : Attestation}
    (ha : a ∈ (heap'.node x).attestations) : a ∈ (heap.node x).attestations ∨ ∃ y, M x y ∧
      (heap.node x).msg = (heap.node y).msg ∧ a ∈ (heap.node y).attestations := by
  cases h with
  | @attestations z w hM hmsg =>
    by_cases hx : x = z
    · subst hx
      rw [Heap.setAttestations, Heap.node_set_self] at ha
      rcases mem_uniteAttestations ha with ha | ha
      · exact .inl ha
      · exact .inr ⟨w, hM, hmsg, ha⟩
    · rw [Heap.setAttestations, Heap.node_set_of_ne hx] at ha
      exact .inl ha
  | @op z w entry' hM hmsg hentry hnew =>
    left
    by_cases hx : x = z
    · subst hx
      rwa [Heap.pushOp, Heap.node_set_self] at ha
    · rwa [Heap.pushOp, Heap.node_set_of_ne hx] at ha

end Absorb

/-- **A merge reaches nothing new** from any node of the two proofs, however it ends. -/
theorem reaches_of_merge {fuel z : Nat} (hz : heap.Below x z ∨ heap.Below y z) {a : Attestation}
    {m : Bytes} (h : (merge fuel x y heap).2.Reaches z a m) :
    heap.Reaches x a m ∨ heap.Reaches y a m := by
  -- the nodes of both proofs, with what both reach attested of them
  let C : Nat → Prop := fun z => heap.Below x z ∨ heap.Below y z
  let P : Attestation → Bytes → Prop := fun a m => heap.Reaches x a m ∨ heap.Reaches y a m
  let I : Heap → Prop := fun g => ∀ z, C z → (∀ entry ∈ (g.node z).ops, C entry.2) ∧
    ∀ a ∈ (g.node z).attestations, P a (g.node z).msg
  have hI : I heap := by
    rintro z (hz | hz)
    · exact ⟨fun entry he => .inl (hz.tail ⟨entry.1, he⟩), fun a ha => .inl ⟨z, hz, ha, rfl⟩⟩
    · exact ⟨fun entry he => .inr (hz.tail ⟨entry.1, he⟩), fun a ha => .inr ⟨z, hz, ha, rfl⟩⟩
  have hkeeps : I (merge fuel x y heap).2 := by
    apply (merge_keeps (I := I) (M := fun u v => C u ∧ C v) ?_ ?_ fuel hI
      ⟨.inl .refl, .inr .refl⟩).1
    · rintro g u v hg ⟨hu, hv⟩ _ entry he mine hmine
      exact ⟨(hg u hu).1 mine (findOp_eq_some hmine).1, (hg v hv).1 entry he⟩
    · intro g g' hg habsorb z hz
      constructor
      · intro entry he
        rcases habsorb.mem_ops he with he | ⟨w, ⟨_, hw⟩, _, he⟩
        · exact (hg z hz).1 entry he
        · exact (hg w hw).1 entry he
      · intro a ha
        rw [habsorb.msg_eq]
        rcases habsorb.mem_attestations ha with ha | ⟨w, ⟨_, hw⟩, hmsg, ha⟩
        · exact (hg z hz).2 a ha
        · rw [hmsg]
          exact (hg w hw).2 a ha
  have hbelow : ∀ w, (merge fuel x y heap).2.Below z w → C w := by
    intro w hw
    induction hw with
    | refl => exact hz
    | tail _ hedge ih =>
      obtain ⟨op, hop⟩ := hedge
      exact (hkeeps _ ih).1 _ hop
  obtain ⟨w, hw, ha, rfl⟩ := h
  exact (hkeeps w (hbelow w hw)).2 a ha

/-- What a loop that goes through does with an entry. -/
theorem mergeOps_step {next : Nat → Nat → Heap → Outcome} {fuel i : Nat} {entry : AnchorOp × Nat}
    (hentry : (heap.node y).ops[i]? = some entry)
    (h : mergeOps next x y (fuel + 1) i heap = (.ok (), heap')) :
    (∃ mine g, findOp (heap.node x).ops entry.1 = some mine ∧
      next mine.2 entry.2 heap = (.ok (), g) ∧
        mergeOps next x y fuel (i + 1) g = (.ok (), heap')) ∨
      findOp (heap.node x).ops entry.1 = none ∧
        mergeOps next x y fuel (i + 1) (heap.pushOp x entry) = (.ok (), heap') := by
  rw [mergeOps, hentry] at h
  dsimp only at h
  cases hfind : findOp (heap.node x).ops entry.1 with
  | none =>
    rw [hfind] at h
    exact .inr ⟨rfl, h⟩
  | some mine =>
    rw [hfind] at h
    dsimp only at h
    cases hrun : next mine.2 entry.2 heap with
    | mk result g =>
      rw [hrun] at h
      cases result with
      | error e => cases h
      | ok _ => exact .inl ⟨mine, g, rfl, hrun, h⟩

/-- A loop that goes through ends behind the last entry. -/
theorem mergeOps_end {next : Nat → Nat → Heap → Outcome} {fuel i : Nat}
    (hentry : (heap.node y).ops[i]? = none)
    (h : mergeOps next x y (fuel + 1) i heap = (.ok (), heap')) : heap' = heap := by
  rw [mergeOps, hentry] at h
  exact (Prod.mk.inj h).2.symm

theorem mergeOps_grows {next : Nat → Nat → Heap → Outcome}
    (hgrows : ∀ x y (heap : Heap), heap.Grows (next x y heap).2) {fuel i : Nat}
    (h : mergeOps next x y fuel i heap = (.ok (), heap')) : heap.Grows heap' := by
  induction fuel generalizing i heap with
  | zero => cases h
  | succ fuel ih =>
    cases hentry : (heap.node y).ops[i]? with
    | none =>
      rw [mergeOps_end hentry h]
      exact .refl _
    | some entry =>
      rcases mergeOps_step hentry h with ⟨mine, g, _, hrun, hrest⟩ | ⟨_, hrest⟩
      · have hgrow := hgrows mine.2 entry.2 heap
        rw [hrun] at hgrow
        exact hgrow.trans (ih hrest)
      · exact (heap.grows_pushOp x entry).trans (ih hrest)

theorem getElem?_of_isPrefix {α : Type} {l l' : List α} (h : l <+: l') {i : Nat} {a : α}
    (ha : l[i]? = some a) : l'[i]? = some a := by
  obtain ⟨rest, rfl⟩ := h
  rw [List.getElem?_append_left (List.getElem?_eq_some_iff.mp ha).1, ha]

/-- What the operations from a position on lead to is led to when the loop has gone through. -/
theorem mergeOps_covers {next : Nat → Nat → Heap → Outcome}
    (hgrows : ∀ x y (heap : Heap), heap.Grows (next x y heap).2)
    (hnext : ∀ {x y heap heap' k m}, next x y heap = (.ok (), heap') → heap.ReachesKey y k m →
      heap'.ReachesKey x k m) {fuel i : Nat}
    (h : mergeOps next x y fuel i heap = (.ok (), heap')) {j : Nat} (hj : i ≤ j)
    {entry : AnchorOp × Nat} (hentry : (heap.node y).ops[j]? = some entry) {k m : Bytes}
    (hreaches : heap.ReachesKey entry.2 k m) : heap'.ReachesKey x k m := by
  induction fuel generalizing i heap with
  | zero => cases h
  | succ fuel ih =>
    have hlen := (List.getElem?_eq_some_iff.mp hentry).1
    have hnow := List.getElem?_eq_getElem (l := (heap.node y).ops) (i := i) (by omega)
    rcases Nat.eq_or_lt_of_le hj with rfl | hlt
    · -- the entry's own turn: its node is led to from here on
      have hled : ∃ g op mine, (op, mine) ∈ (g.node x).ops ∧ g.ReachesKey mine k m ∧
          mergeOps next x y fuel (i + 1) g = (.ok (), heap') := by
        rcases mergeOps_step hentry h with ⟨mine, g, hfind, hrun, hrest⟩ | ⟨_, hrest⟩
        · have hgrow := hgrows mine.2 entry.2 heap
          rw [hrun] at hgrow
          exact ⟨g, mine.1, mine.2, (hgrow x).ops.subset (findOp_eq_some hfind).1,
            hnext hrun hreaches, hrest⟩
        · refine ⟨_, entry.1, entry.2, ?_, (heap.grows_pushOp x entry).reachesKey hreaches, hrest⟩
          rw [Heap.pushOp, Heap.node_set_self]
          exact List.mem_append_right _ (List.mem_singleton_self _)
      obtain ⟨g, op, mine, hmem, hled, hrest⟩ := hled
      have hafter := mergeOps_grows hgrows hrest
      obtain ⟨a, hk, ha⟩ := hafter.reachesKey hled
      exact ⟨a, hk, Heap.reaches_iff.mpr (.inr ⟨(op, mine), (hafter x).ops.subset hmem, ha⟩)⟩
    · rcases mergeOps_step hnow h with ⟨mine, g, _, hrun, hrest⟩ | ⟨_, hrest⟩
      · have hgrow := hgrows mine.2 ((heap.node y).ops[i]).2 heap
        rw [hrun] at hgrow
        exact ih hrest hlt (getElem?_of_isPrefix (hgrow y).ops hentry) (hgrow.reachesKey hreaches)
      · have hgrow := heap.grows_pushOp x ((heap.node y).ops[i])
        exact ih hrest hlt (getElem?_of_isPrefix (hgrow y).ops hentry) (hgrow.reachesKey hreaches)

/-- **A merge that returns loses nothing**, whatever the two proofs share. -/
theorem merge_covers {fuel : Nat} (h : merge fuel x y heap = (.ok (), heap')) {k m : Bytes}
    (hreaches : heap.ReachesKey y k m) : heap'.ReachesKey x k m := by
  induction fuel generalizing x y heap heap' k m with
  | zero => cases h
  | succ fuel ih =>
    have hmsg : (heap.node x).msg = (heap.node y).msg := by
      by_contra hdiffers
      rw [merge, if_pos hdiffers] at h
      cases h
    rw [merge, if_neg (not_not_intro hmsg)] at h
    have hgrow := heap.grows_setAttestations x (heap.node y).attestations
    have hafter := mergeOps_grows (merge_grows fuel) h
    obtain ⟨a, rfl, ha⟩ := hreaches
    rcases Heap.reaches_iff.mp ha with ⟨hown, rfl⟩ | ⟨entry, he, hbelow⟩
    · obtain ⟨a', ha', hkey⟩ := key_mem_uniteAttestations (heap.node x).attestations hown
      apply hafter.reachesKey
      refine ⟨a', hkey, x, .refl, ?_, ?_⟩
      · rw [Heap.setAttestations, Heap.node_set_self]
        exact ha'
      · rw [Heap.setAttestations, Heap.node_set_self]
        exact hmsg
    · obtain ⟨j, hj⟩ := List.mem_iff_getElem?.mp ((hgrow y).ops.subset he)
      exact mergeOps_covers (merge_grows fuel) (fun hrun => ih hrun) h (Nat.zero_le j) hj
        (hgrow.reachesKey ⟨a, rfl, hbelow⟩)

end CoolSdk.Anchor
