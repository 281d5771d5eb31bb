import CoolSdk.Phala.AnchorRanks

/-!
# Merging again

A second merge of the same proof changes nothing where the first one left that proof alone. It did
where the two proofs share no node, no node of the first is reached twice, and no node of the
second has one operation twice: a node is then matched with one other, and what it takes over from
it is not merged into.
-/

namespace CoolSdk.Anchor

variable {H : Host} {A : AnchorHost} {heap heap' g : Heap} {x y u v : Nat} {rank : Nat → Nat}

namespace Heap

/-- Every node below a node is reached from it in one way. -/
structure Unshared (heap : Heap) (x : Nat) : Prop where
  root : ∀ y, heap.Below x y → ∀ entry ∈ (heap.node y).ops, entry.2 ≠ x
  parent : ∀ y z, heap.Below x y → heap.Below x z → ∀ entry ∈ (heap.node y).ops,
    ∀ entry' ∈ (heap.node z).ops, entry.2 = entry'.2 → y = z ∧ entry = entry'

/-- Two proofs that share no node. -/
def Apart (heap : Heap) (x y : Nat) : Prop := ∀ z, heap.Below x z → ¬heap.Below y z

/-- No node below a node has one operation twice. -/
def UniqueOps (heap : Heap) (y : Nat) : Prop := ∀ z, heap.Below y z →
  ∀ entry ∈ (heap.node z).ops, ∀ entry' ∈ (heap.node z).ops, entry.1 = entry'.1 → entry = entry'

/-- Nodes that one path of operations leads to, where a merge looks for them. -/
inductive Partner (heap : Heap) (x y : Nat) : Nat → Nat → Prop
  | root : Partner heap x y x y
  | step {u v : Nat} {entry mine : AnchorOp × Nat} (h : Partner heap x y u v)
      (he : entry ∈ (heap.node v).ops) (hmine : findOp (heap.node u).ops entry.1 = some mine) :
      Partner heap x y mine.2 entry.2

theorem Partner.nodes_below (h : heap.Partner x y u v) : heap.Below x u ∧ heap.Below y v := by
  induction h with
  | root => exact ⟨.refl, .refl⟩
  | step h he hmine ih =>
    exact ⟨ih.1.tail ⟨_, (findOp_eq_some hmine).1⟩, ih.2.tail ⟨_, he⟩⟩

/-- A node that is reached in one way has one partner. -/
theorem Partner.unique (hx : heap.Unshared x) (hy : heap.UniqueOps y) {v' : Nat}
    (h : heap.Partner x y u v) (h' : heap.Partner x y u v') : v = v' := by
  induction h generalizing v' with
  | root =>
    have hroot : ∀ {w}, heap.Partner x y w v' → w = x → y = v' := by
      intro w hpartner hw
      cases hpartner with
      | root => rfl
      | step hpartner he hmine =>
        exact absurd hw (hx.root _ hpartner.nodes_below.1 _ (findOp_eq_some hmine).1)
    exact hroot h' rfl
  | @step p q entry mine h he hmine ih =>
    obtain ⟨hmem, hkey⟩ := findOp_eq_some hmine
    generalize hu : mine.2 = u at h'
    cases h' with
    | root => exact absurd hu (hx.root _ h.nodes_below.1 _ hmem)
    | @step p' q' entry' mine' h' he' hmine' =>
      obtain ⟨hmem', hkey'⟩ := findOp_eq_some hmine'
      obtain ⟨rfl, rfl⟩ := hx.parent p p' h.nodes_below.1 h'.nodes_below.1 mine hmem mine' hmem' hu
      obtain rfl := ih h'
      rw [hy _ h.nodes_below.2 entry he entry' he' (opKey_injective (hkey.symm.trans hkey'))]

end Heap

/-! ## The first merge -/

theorem findOp_append (ops pushed : List (AnchorOp × Nat)) (op : AnchorOp) :
    findOp (ops ++ pushed) op = (findOp ops op).or (findOp pushed op) := List.find?_append ..

theorem Heap.set_self {node : HeapNode} (h : node = heap.node x) : heap.set x node = heap := by
  rw [h, Heap.set, Function.update_eq_self]

/-- A merge into a proof that shares no node with another leaves the other alone, where the nodes
of the first have one partner. -/
theorem merge_leaves (hx : heap.Unshared x) (hy : heap.UniqueOps y) (hapart : heap.Apart x y)
    (fuel : Nat) {z : Nat} (hz : heap.Below y z) :
    (merge fuel x y heap).2.node z = heap.node z := by
  -- a node takes over operations of its partner; these lead to nodes of the other proof, which
  -- are merged with themselves only
  let M : Nat → Nat → Prop := fun u v => heap.Partner x y u v ∨ u = v ∧ heap.Below y u
  let I : Heap → Prop := fun g => (∀ z, heap.Below y z → g.node z = heap.node z) ∧
    ∀ u, heap.Below x u → ∃ pushed, (g.node u).ops = (heap.node u).ops ++ pushed ∧
      ∀ entry ∈ pushed, ∃ v, heap.Partner x y u v ∧ entry ∈ (heap.node v).ops
  have hI : I heap := by
    refine ⟨fun _ _ => rfl, fun u _ => ⟨[], (List.append_nil _).symm, ?_⟩⟩
    exact fun entry he => nomatch he
  have hkeeps : I (merge fuel x y heap).2 := by
    apply (merge_keeps (I := I) (M := M) ?_ ?_ fuel hI (.inl .root)).1
    · rintro g u v ⟨hsame, hpushes⟩ huv _ entry he mine hmine
      rcases huv with hpartner | ⟨rfl, hu⟩
      · obtain ⟨hu, hv⟩ := hpartner.nodes_below
        rw [hsame v hv] at he
        obtain ⟨pushed, hops, hpushed⟩ := hpushes u hu
        rw [hops, findOp_append] at hmine
        rcases Option.or_eq_some_iff.mp hmine with hmine | ⟨_, hmine⟩
        · exact .inl (.step hpartner he hmine)
        · obtain ⟨hmem, hkey⟩ := findOp_eq_some hmine
          obtain ⟨v', hpartner', hmem'⟩ := hpushed mine hmem
          obtain rfl := hpartner.unique hx hy hpartner'
          obtain rfl := hy v hv mine hmem' entry he (opKey_injective hkey)
          exact .inr ⟨rfl, hv.tail ⟨_, he⟩⟩
      · rw [hsame u hu] at he hmine
        obtain ⟨hmem, hkey⟩ := findOp_eq_some hmine
        obtain rfl := hy u hu mine hmem entry he (opKey_injective hkey)
        exact .inr ⟨rfl, hu.tail ⟨_, he⟩⟩
    · rintro g g' ⟨hsame, hpushes⟩ habsorb
      cases habsorb with
      | @attestations u v huv hmsg =>
        rcases huv with hpartner | ⟨rfl, hu⟩
        · refine ⟨?_, ?_⟩
          · intro z hz
            have hne : z ≠ u := by
              rintro rfl
              exact hapart z hpartner.nodes_below.1 hz
            rw [Heap.setAttestations, Heap.node_set_of_ne hne, hsame z hz]
          · apply Heap.forall_node_set (p := fun w node => heap.Below x w → ∃ pushed,
              node.ops = (heap.node w).ops ++ pushed ∧ ∀ entry ∈ pushed,
                ∃ v, heap.Partner x y w v ∧ entry ∈ (heap.node v).ops)
            · exact hpushes u
            · exact hpushes
        · have hself : g.setAttestations u (uniteAttestations (g.node u).attestations
              (g.node u).attestations) = g := by
            apply Heap.set_self
            rw [uniteAttestations_eq_self fun a ha => ⟨a, ha, rfl⟩]
          rw [hself]
          exact ⟨hsame, hpushes⟩
      | @op u v entry huv hmsg he hnew =>
        rcases huv with hpartner | ⟨rfl, hu⟩
        · refine ⟨?_, ?_⟩
          · intro z hz
            have hne : z ≠ u := by
              rintro rfl
              exact hapart z hpartner.nodes_below.1 hz
            rw [Heap.pushOp, Heap.node_set_of_ne hne, hsame z hz]
          · rw [hsame v hpartner.nodes_below.2] at he
            apply Heap.forall_node_set (p := fun w node => heap.Below x w → ∃ pushed,
              node.ops = (heap.node w).ops ++ pushed ∧ ∀ entry ∈ pushed,
                ∃ v, heap.Partner x y w v ∧ entry ∈ (heap.node v).ops)
            · intro hu
              obtain ⟨pushed, hops, hpushed⟩ := hpushes u hu
              refine ⟨pushed ++ [entry], ?_, ?_⟩
              · rw [hops, List.append_assoc]
              · exact List.forall_mem_append.mpr ⟨hpushed,
                  List.forall_mem_singleton.mpr ⟨v, hpartner, he⟩⟩
            · exact hpushes
        · have hfound := List.find?_eq_none.mp hnew entry he
          simp at hfound
  exact hkeeps.1 z hz

/-! ## The second merge -/

/-- A node has what another has, and so have the nodes that their operations lead to. -/
inductive Heap.Covers (heap : Heap) : Nat → Nat → Prop
  | mk {u v : Nat} (hmsg : (heap.node u).msg = (heap.node v).msg)
      (hattestations : ∀ a ∈ (heap.node v).attestations,
        ∃ a' ∈ (heap.node u).attestations, attestationKey a' = attestationKey a)
      (hfound : ∀ entry ∈ (heap.node v).ops, ∃ mine, findOp (heap.node u).ops entry.1 = some mine)
      (h : ∀ entry ∈ (heap.node v).ops, ∀ mine, findOp (heap.node u).ops entry.1 = some mine →
        Covers heap mine.2 entry.2) : Covers heap u v

theorem mergeOps_of_found
    (h : ∀ entry ∈ (heap.node v).ops, ∃ mine, findOp (heap.node u).ops entry.1 = some mine ∧
      ∃ n, ∀ fuel ≥ n, merge fuel mine.2 entry.2 heap = (.ok (), heap)) (k i : Nat)
    (hlen : i + k = (heap.node v).ops.length) :
    ∃ n, ∀ fuel ≥ n, ∀ depth ≥ n, mergeOps (merge depth) u v fuel i heap = (.ok (), heap) := by
  induction k generalizing i with
  | zero =>
    refine ⟨1, ?_⟩
    intro fuel hfuel depth _
    obtain ⟨fuel, rfl⟩ : ∃ fuel', fuel = fuel' + 1 := ⟨fuel - 1, by omega⟩
    rw [mergeOps, List.getElem?_eq_none (by omega)]
  | succ k ih =>
    have hlt : i < (heap.node v).ops.length := by omega
    obtain ⟨mine, hfind, n, hn⟩ := h _ (List.getElem_mem hlt)
    obtain ⟨n', hrun⟩ := ih (i + 1) (by omega)
    refine ⟨n + n' + 1, ?_⟩
    intro fuel hfuel depth hdepth
    obtain ⟨fuel, rfl⟩ : ∃ fuel', fuel = fuel' + 1 := ⟨fuel - 1, by omega⟩
    rw [mergeOps, List.getElem?_eq_getElem hlt]
    dsimp only
    rw [hfind]
    dsimp only
    rw [hn depth (by omega)]
    exact hrun fuel (by omega) depth (by omega)

/-- **Merging what a node has already changes nothing.** -/
theorem Heap.Covers.merge (h : heap.Covers u v) :
    ∃ n, ∀ fuel ≥ n, merge fuel u v heap = (.ok (), heap) := by
  induction h with
  | @mk u v hmsg hattestations hfound h ih =>
    have hself : heap.setAttestations u (uniteAttestations (heap.node u).attestations
        (heap.node v).attestations) = heap := by
      apply Heap.set_self
      rw [uniteAttestations_eq_self hattestations]
    have hmerges : ∀ entry ∈ (heap.node v).ops, ∃ mine, findOp (heap.node u).ops entry.1 =
        some mine ∧ ∃ n, ∀ fuel ≥ n, Anchor.merge fuel mine.2 entry.2 heap = (.ok (), heap) := by
      intro entry he
      obtain ⟨mine, hmine⟩ := hfound entry he
      exact ⟨mine, hmine, ih entry he mine hmine⟩
    obtain ⟨n, hrun⟩ := mergeOps_of_found hmerges _ 0 (Nat.zero_add _)
    refine ⟨n + 1, ?_⟩
    intro fuel hfuel
    obtain ⟨fuel, rfl⟩ : ∃ fuel', fuel = fuel' + 1 := ⟨fuel - 1, by omega⟩
    rw [Anchor.merge, if_neg (not_not_intro hmsg), hself]
    exact hrun fuel (by omega) fuel (by omega)

/-- A tree without repeated operations has what it has. -/
theorem Heap.Ranked.covers_self (h : heap.Ranked rank) (hy : heap.UniqueOps y)
    (hu : heap.Below y u) : heap.Covers u u := by
  induction hr : rank u using Nat.strongRecOn generalizing u with
  | ind r ih =>
    refine .mk rfl (fun a ha => ⟨a, ha, rfl⟩) ?_ ?_
    · intro entry he
      cases hfind : findOp (heap.node u).ops entry.1 with
      | none =>
        have hfound := List.find?_eq_none.mp hfind entry he
        simp at hfound
      | some mine => exact ⟨mine, rfl⟩
    · intro entry he mine hmine
      obtain ⟨hmem, hkey⟩ := findOp_eq_some hmine
      obtain rfl := hy u hu mine hmem entry he (opKey_injective hkey)
      exact ih _ (hr ▸ h.falls u _ he) (hu.tail ⟨_, he⟩) rfl

/-- What a node and the nodes below it have at the end they have in between. -/
theorem Heap.Grows.between (h : heap.Grows g) (h' : g.Grows heap')
    (hsame : ∀ z, heap.Below v z → heap'.node z = heap.node z) {z : Nat} (hz : g.Below v z) :
    heap.Below v z ∧ heap'.node z = g.node z := by
  have hnode : ∀ z, heap.Below v z → g.node z = heap.node z := by
    intro z hz
    have hback := h' z
    rw [hsame z hz] at hback
    exact hback.antisymm (h z)
  have hbelow : heap.Below v z := by
    induction hz with
    | refl => exact .refl
    | tail _ hedge ih =>
      obtain ⟨op, hop⟩ := hedge
      rw [hnode _ ih] at hop
      exact ih.tail ⟨op, hop⟩
  exact ⟨hbelow, by rw [hsame z hbelow, hnode z hbelow]⟩

theorem findOp_of_isPrefix {ops ops' : List (AnchorOp × Nat)} (h : ops <+: ops') {op : AnchorOp}
    {mine : AnchorOp × Nat} (hmine : findOp ops op = some mine) : findOp ops' op = some mine := by
  obtain ⟨pushed, rfl⟩ := h
  rw [findOp_append, hmine, Option.some_or]

/-- A node has what the loop went through, if the nodes below stay as they are to the end. -/
theorem mergeOps_covered {next : Nat → Nat → Heap → Outcome} {g' : Heap}
    (hgrows : ∀ u v (heap : Heap), heap.Grows (next u v heap).2)
    (hnext : ∀ {u v g g'}, next u v g = (.ok (), g') → g'.Grows heap' →
      (∀ z, g.Below v z → heap'.node z = g.node z) → (∀ z, g.Below v z → heap'.Covers z z) →
        heap'.Covers u v) {fuel i : Nat} (h : mergeOps next u v fuel i g = (.ok (), g'))
    (hend : g'.Grows heap') (hsame : ∀ z, g.Below v z → heap'.node z = g.node z)
    (hself : ∀ z, g.Below v z → heap'.Covers z z) {j : Nat} (hj : i ≤ j)
    {entry : AnchorOp × Nat} (hentry : (g.node v).ops[j]? = some entry) :
    ∃ mine, findOp (heap'.node u).ops entry.1 = some mine ∧ heap'.Covers mine.2 entry.2 := by
  induction fuel generalizing i g with
  | zero => cases h
  | succ fuel ih =>
    have hlen := (List.getElem?_eq_some_iff.mp hentry).1
    have hnow := List.getElem?_eq_getElem (l := (g.node v).ops) (i := i) (by omega)
    rcases Nat.eq_or_lt_of_le hj with rfl | hlt
    · have hedge : g.Edge v entry.2 := ⟨entry.1, List.mem_of_getElem? hentry⟩
      rcases mergeOps_step hentry h with ⟨mine, g₁, hfind, hrun, hrest⟩ | ⟨hfind, hrest⟩
      · have hgrow := hgrows mine.2 entry.2 g
        rw [hrun] at hgrow
        have hafter := (mergeOps_grows hgrows hrest).trans hend
        exact ⟨mine, findOp_of_isPrefix ((hgrow.trans hafter) u).ops hfind, hnext hrun hafter
          (fun z hz => hsame z (.head hedge hz)) fun z hz => hself z (.head hedge hz)⟩
      · have hafter := (mergeOps_grows hgrows hrest).trans hend
        refine ⟨entry, findOp_of_isPrefix (hafter u).ops ?_, hself _ (.single hedge)⟩
        rw [Heap.pushOp, Heap.node_set_self, findOp_append, hfind, Option.none_or, findOp]
        simp
    · -- the loop goes on about the same nodes
      have hlater : ∀ g₁, g.Grows g₁ → mergeOps next u v fuel (i + 1) g₁ = (.ok (), g') →
          ∃ mine, findOp (heap'.node u).ops entry.1 = some mine ∧
            heap'.Covers mine.2 entry.2 := by
        intro g₁ hgrow hrest
        have hafter := (mergeOps_grows hgrows hrest).trans hend
        exact ih hrest (fun z hz => (hgrow.between hafter hsame hz).2)
          (fun z hz => hself z (hgrow.between hafter hsame hz).1) hlt
          (getElem?_of_isPrefix (hgrow v).ops hentry)
      rcases mergeOps_step hnow h with ⟨mine, g₁, _, hrun, hrest⟩ | ⟨_, hrest⟩
      · have hgrow := hgrows mine.2 ((g.node v).ops[i]).2 g
        rw [hrun] at hgrow
        exact hlater g₁ hgrow hrest
      · exact hlater _ (g.grows_pushOp u _) hrest

/-- A node has what was merged into it, if the nodes below stay as they are to the end. -/
theorem merge_covered {g' : Heap} {fuel : Nat} (h : merge fuel u v g = (.ok (), g'))
    (hend : g'.Grows heap') (hsame : ∀ z, g.Below v z → heap'.node z = g.node z)
    (hself : ∀ z, g.Below v z → heap'.Covers z z) : heap'.Covers u v := by
  induction fuel generalizing u v g g' with
  | zero => cases h
  | succ fuel ih =>
    have hmsg : (g.node u).msg = (g.node v).msg := by
      by_contra hdiffers
      rw [merge, if_pos hdiffers] at h
      cases h
    rw [merge, if_neg (not_not_intro hmsg)] at h
    have hgrow := g.grows_setAttestations u (g.node v).attestations
    have hafter := (mergeOps_grows (merge_grows fuel) h).trans hend
    have hops : ∀ entry ∈ (heap'.node v).ops, ∃ mine,
        findOp (heap'.node u).ops entry.1 = some mine ∧ heap'.Covers mine.2 entry.2 := by
      intro entry he
      rw [(hgrow.between hafter hsame .refl).2] at he
      obtain ⟨j, hj⟩ := List.mem_iff_getElem?.mp he
      exact mergeOps_covered (merge_grows fuel) (fun hrun => ih hrun) h hend
        (fun z hz => (hgrow.between hafter hsame hz).2)
        (fun z hz => hself z (hgrow.between hafter hsame hz).1) (Nat.zero_le j) hj
    refine .mk ?_ ?_ ?_ ?_
    · rw [((hgrow.trans hafter) u).msg, ((hgrow.trans hafter) v).msg, hmsg]
    · intro a ha
      rw [hsame v .refl] at ha
      obtain ⟨a', ha', hkey⟩ := key_mem_uniteAttestations (g.node u).attestations ha
      refine ⟨a', (hafter u).attestations.subset ?_, hkey⟩
      rw [Heap.setAttestations, Heap.node_set_self]
      exact ha'
    · intro entry he
      obtain ⟨mine, hmine, _⟩ := hops entry he
      exact ⟨mine, hmine⟩
    · intro entry he mine hmine
      obtain ⟨mine', hmine', hcovers⟩ := hops entry he
      obtain rfl := Option.some.inj (hmine.symm.trans hmine')
      exact hcovers

/-- **Merging again changes nothing** where the two proofs share no node, no node of the first is
reached twice, and no node of the second has one operation twice. -/
theorem merge_again (hranked : heap.Ranked rank) (hrank : rank x = rank y)
    (hx : heap.Unshared x) (hy : heap.UniqueOps y) (hapart : heap.Apart x y) {fuel : Nat}
    (h : merge fuel x y heap = (.ok (), heap')) :
    ∃ n, ∀ fuel ≥ n, merge fuel x y heap' = (.ok (), heap') := by
  have hgrow := merge_grows fuel x y heap
  have hranked' := hranked.merge hrank fuel
  have hsame : ∀ z, heap.Below y z → heap'.node z = heap.node z := by
    intro z hz
    have hleaves := merge_leaves hx hy hapart fuel hz
    rwa [h] at hleaves
  rw [h] at hgrow hranked'
  have hbelow : ∀ z, heap'.Below y z → heap.Below y z := fun z hz =>
    (hgrow.between (.refl _) hsame hz).1
  have hunique : heap'.UniqueOps y := by
    intro z hz entry he entry' he'
    rw [hsame z (hbelow z hz)] at he he'
    exact hy z (hbelow z hz) entry he entry' he'
  apply Heap.Covers.merge
  exact merge_covered h (.refl _) hsame fun z hz =>
    hranked'.covers_self hunique (hgrow.below hz)

end CoolSdk.Anchor
