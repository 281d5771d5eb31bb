import CoolSdk.Phala.AnchorAlloc
import CoolSdk.Phala.NeverThrows

/-!
# Upgrading proofs

An upgrade asks the calendars about what is pending in a proof, and merges what each answers into
every node about the same message. It only adds to the proof, whatever they answer and however
deep the proof has become.
-/

namespace CoolSdk.Anchor

variable {H : Host} {A : AnchorHost} {heap heap' : Heap} {x y : Nat}

/-! ## Upgrading -/

/-- The loop over the nodes that a node's operations lead to. -/
def spliceOps (next : Nat → Heap → Outcome) (stamp : Nat) : Nat → Nat → Heap → Outcome
  | 0, _, heap => tooDeep heap
  | fuel + 1, i, heap =>
    match (heap.node stamp).ops[i]? with
    | none => (.ok (), heap)
    | some (_, child) => (next child heap).andThen (spliceOps next stamp fuel (i + 1))

/-- Merge a proof into every node about a message that is not below another. -/
def spliceAt (commitment : Bytes) (fresh : Nat) : Nat → Nat → Heap → Outcome
  | 0, _, heap => tooDeep heap
  | fuel + 1, stamp, heap =>
    if (heap.node stamp).msg = commitment then merge fuel stamp fresh heap
    else spliceOps (spliceAt commitment fresh fuel) stamp fuel 0 heap

/-- What a calendar makes of a question. -/
inductive Answer
  /-- No response in time, or none at all. -/
  | unreachable
  | notFound
  /-- Another status that is no success. -/
  | refused
  | body (bytes : Bytes)

/-- An upgrade on the way. -/
structure Upgrading where
  heap : Heap
  upgraded : Bool := false
  stillPending : Nat := 0

structure UpgradeResult where
  upgraded : Bool
  heights : List Nat
  stillPending : Nat

def Upgrading.pending (s : Upgrading) : Upgrading := { s with stillPending := s.stillPending + 1 }

/-- What is pending among what a proof reaches: where to ask, and about what. -/
def pendingOf (reached : List (Attestation × Bytes)) : List (String × Bytes) :=
  reached.filterMap fun entry =>
    match entry.1 with
    | .pending uri => some (uri, entry.2)
    | _ => none

/-- Splice in what one calendar answers; what cannot be read or spliced in is still pending. -/
def askOne (H : Host) (A : AnchorHost) (fuel root : Nat) (commitment : Bytes) (s : Upgrading) :
    Answer → Upgrading
  | .body bytes =>
    match readTimestamp H A (bytes.length + 1) commitment bytes with
    | .error _ => s.pending
    | .ok (fresh, _) =>
      let (fresh, heap) := alloc fresh s.heap
      match spliceAt commitment fresh fuel root heap with
      | (.ok (), heap) => { s with heap, upgraded := true }
      | (.error _, heap) => { s with heap }.pending
  | .unreachable | .notFound | .refused => s.pending

/-- Ask about one pending commitment after the other. -/
def askAll (H : Host) (A : AnchorHost) (fuel root : Nat) :
    List (String × Bytes) → List Answer → Upgrading → Upgrading
  | [], _, s => s
  | (_, commitment) :: pending, answers, s =>
    askAll H A fuel root pending answers.tail
      (askOne H A fuel root commitment s (answers.headD .unreachable))

/-- Ask the calendars whether what is pending made it into a block. -/
def upgrade (H : Host) (A : AnchorHost) (fuel : Nat) (answers : List Answer) (root : Nat)
    (heap : Heap) : Except String UpgradeResult × Heap :=
  match heap.reachable fuel root with
  | .error e => (.error e, heap)
  | .ok reached =>
    let s := askAll H A fuel root (pendingOf reached) answers { heap }
    match s.heap.reachable fuel root with
    | .error e => (.error e, s.heap)
    | .ok reached =>
      (.ok { upgraded := s.upgraded
             heights := ((bitcoinHeights reached).map Prod.fst).eraseDups.mergeSort
             stillPending := s.stillPending }, s.heap)

/-! ## What every splice keeps -/

/-- What an addition to a node keeps, a splice keeps. -/
theorem spliceAt_keeps {I : Heap → Prop}
    (hstep : ∀ {heap heap'}, I heap → Absorb (fun _ _ => True) heap heap' → I heap')
    (commitment : Bytes) (fresh fuel stamp : Nat) (hI : I heap) :
    I (spliceAt commitment fresh fuel stamp heap).2 := by
  induction fuel generalizing stamp heap with
  | zero => exact hI
  | succ fuel ih =>
    have hloop : ∀ steps i heap, I heap →
        I (spliceOps (spliceAt commitment fresh fuel) stamp steps i heap).2 := by
      intro steps
      induction steps with
      | zero => exact fun _ _ hI => hI
      | succ steps ih' =>
        intro i heap hI
        rw [spliceOps]
        cases (heap.node stamp).ops[i]? with
        | none => exact hI
        | some entry =>
          have hchild := ih entry.2 hI
          dsimp only
          cases hrun : spliceAt commitment fresh fuel entry.2 heap with
          | mk result heap' =>
            rw [hrun] at hchild
            cases result with
            | error e => exact hchild
            | ok _ => exact ih' (i + 1) heap' hchild
    rw [spliceAt]
    split_ifs
    · exact (merge_keeps (M := fun _ _ => True) (fun _ _ _ _ _ _ _ => trivial) hstep fuel hI
        trivial).1
    · exact hloop fuel 0 heap hI

/-- A heap in which the nodes that were in use have kept what they had. -/
structure Heap.Extends (heap heap' : Heap) : Prop where
  le : heap.next ≤ heap'.next
  grows : ∀ x < heap.next, (heap.node x).Grows (heap'.node x)

namespace Heap

theorem Extends.refl (heap : Heap) : heap.Extends heap := ⟨le_rfl, fun _ _ => .refl _⟩

theorem Extends.trans {heap'' : Heap} (h : heap.Extends heap') (h' : heap'.Extends heap'') :
    heap.Extends heap'' :=
  ⟨h.le.trans h'.le, fun x hx => (h.grows x hx).trans (h'.grows x (hx.trans_le h.le))⟩

theorem Allocates.extends (h : heap.Allocates heap') : heap.Extends heap' where
  le := h.le
  grows := by
    intro x hx
    rw [h.unchanged x (.inl hx)]
    exact .refl _

/-- **What a node in use reaches it still reaches** in a heap that extends it. -/
theorem Extends.reaches (h : heap.Extends heap') (hscoped : heap.Scoped) (hx : x < heap.next)
    {a : Attestation} {m : Bytes} (hreaches : heap.Reaches x a m) : heap'.Reaches x a m := by
  have hbelow : ∀ z, heap.Below x z → heap'.Below x z := by
    intro z hz
    induction hz with
    | refl => exact .refl
    | tail hz hedge ih =>
      obtain ⟨op, hop⟩ := hedge
      exact ih.tail ⟨op, (h.grows _ (hscoped.below_lt hx hz)).ops.subset hop⟩
  obtain ⟨z, hz, ha, rfl⟩ := hreaches
  have hgrows := h.grows z (hscoped.below_lt hx hz)
  exact ⟨z, hbelow z hz, hgrows.attestations.subset ha, hgrows.msg⟩

end Heap

theorem Absorb.next_eq {M : Nat → Nat → Prop} (h : Absorb M heap heap') :
    heap'.next = heap.next := by
  cases h with
  | attestations => rfl
  | op => rfl

theorem Absorb.keeps_scoped {M : Nat → Nat → Prop} (h : Absorb M heap heap')
    (hscoped : heap.Scoped) : heap'.Scoped := by
  intro x entry he
  rw [h.next_eq]
  rcases h.mem_ops he with he | ⟨y, _, _, he⟩
  · exact hscoped x entry he
  · exact hscoped y entry he

theorem spliceAt_extends (commitment : Bytes) (fresh fuel stamp : Nat) (heap : Heap) :
    heap.Extends (spliceAt commitment fresh fuel stamp heap).2 := by
  have hkeeps := spliceAt_keeps (I := fun g => g.next = heap.next ∧ heap.Grows g)
    (fun hI habsorb => ⟨habsorb.next_eq.trans hI.1, hI.2.trans habsorb.grows⟩)
    commitment fresh fuel stamp
    ⟨rfl, Heap.Grows.refl heap⟩
  exact ⟨hkeeps.1.ge, fun x _ => hkeeps.2 x⟩

/-! ## What an upgrade keeps -/

/-- Operations refer to nodes in use, and every message is derived. -/
structure Heap.Sound (H : Host) (A : AnchorHost) (heap : Heap) : Prop where
  refs : heap.Scoped
  derived : heap.Derived H A

theorem askOne_keeps (fuel root : Nat) (commitment : Bytes) (answer : Answer) (s : Upgrading) :
    (s.heap.Scoped → s.heap.Extends (askOne H A fuel root commitment s answer).heap ∧
      (askOne H A fuel root commitment s answer).heap.Scoped) ∧
    (s.heap.Sound H A → (askOne H A fuel root commitment s answer).heap.Sound H A) := by
  have hsame : (s.heap.Scoped → s.heap.Extends s.pending.heap ∧ s.pending.heap.Scoped) ∧
      (s.heap.Sound H A → s.pending.heap.Sound H A) :=
    ⟨fun hscoped => ⟨.refl _, hscoped⟩, fun hsound => hsound⟩
  cases answer with
  | unreachable => exact hsame
  | notFound => exact hsame
  | refused => exact hsame
  | body bytes =>
    rw [askOne]
    cases hread : readTimestamp H A (bytes.length + 1) commitment bytes with
    | error e => exact hsame
    | ok r =>
      obtain ⟨fresh, rest⟩ := r
      have hfresh := (readTimestamp_derived hread).2
      have hextends := (alloc_allocates fresh s.heap).1.extends.trans
        (spliceAt_extends commitment (alloc fresh s.heap).1 fuel root (alloc fresh s.heap).2)
      have hscoped := fun h : s.heap.Scoped => spliceAt_keeps (I := fun g => g.Scoped)
        (fun hI habsorb => habsorb.keeps_scoped hI) commitment (alloc fresh s.heap).1 fuel root
        (h.alloc fresh)
      have hsound := fun h : s.heap.Sound H A => spliceAt_keeps (I := fun g => g.Sound H A)
        (fun hI habsorb => ⟨habsorb.keeps_scoped hI.refs, habsorb.derived hI.derived⟩) commitment
        (alloc fresh s.heap).1 fuel root
        ⟨h.refs.alloc fresh, h.derived.alloc h.refs hfresh⟩
      dsimp only
      cases hrun : spliceAt commitment (alloc fresh s.heap).1 fuel root
          (alloc fresh s.heap).2 with
      | mk result heap' =>
        rw [hrun] at hextends hscoped hsound
        cases result with
        | error e => exact ⟨fun h => ⟨hextends, hscoped h⟩, hsound⟩
        | ok _ => exact ⟨fun h => ⟨hextends, hscoped h⟩, hsound⟩

theorem askAll_keeps (fuel root : Nat) (pending : List (String × Bytes)) (answers : List Answer)
    (s : Upgrading) :
    (s.heap.Scoped → s.heap.Extends (askAll H A fuel root pending answers s).heap) ∧
    (s.heap.Sound H A → (askAll H A fuel root pending answers s).heap.Sound H A) := by
  induction pending generalizing answers s with
  | nil => exact ⟨fun _ => .refl _, fun hsound => hsound⟩
  | cons question pending ih =>
    obtain ⟨hone, hsound⟩ := askOne_keeps (H := H) (A := A) fuel root question.2
      (answers.headD .unreachable) s
    obtain ⟨hmore, hsounds⟩ := ih answers.tail
      (askOne H A fuel root question.2 s (answers.headD .unreachable))
    exact ⟨fun hscoped => (hone hscoped).1.trans (hmore (hone hscoped).2),
      fun h => hsounds (hsound h)⟩

/-- **An upgrade only adds**, whatever the calendars answer, and leaves every message derived. -/
theorem upgrade_keeps (fuel : Nat) (answers : List Answer) (root : Nat) (heap : Heap) :
    (heap.Scoped → heap.Extends (upgrade H A fuel answers root heap).2) ∧
    (heap.Sound H A → (upgrade H A fuel answers root heap).2.Sound H A) := by
  rw [upgrade]
  cases heap.reachable fuel root with
  | error e => exact ⟨fun _ => .refl _, fun hsound => hsound⟩
  | ok reached =>
    have hkeeps := askAll_keeps (H := H) (A := A) fuel root (pendingOf reached) answers { heap }
    dsimp only
    cases (askAll H A fuel root (pendingOf reached) answers { heap }).heap.reachable fuel root with
    | error e => exact hkeeps
    | ok _ => exact hkeeps

/-! ## Unions -/

/-- What is attested below a node has a tag of its own where it is unknown. -/
def Heap.Regular (heap : Heap) (x : Nat) : Prop := ∀ a m, heap.Reaches x a m → a.Regular

/-- **A merge that returns makes a union of what the keys reach.** -/
theorem merge_reachesKey {fuel : Nat} (h : merge fuel x y heap = (.ok (), heap')) (k m : Bytes) :
    heap'.ReachesKey x k m ↔ heap.ReachesKey x k m ∨ heap.ReachesKey y k m := by
  have hgrow := merge_grows fuel x y heap
  rw [h] at hgrow
  constructor
  · rintro ⟨a, hk, ha⟩
    have hafter : (merge fuel x y heap).2.Reaches x a m := by
      rw [h]
      exact ha
    rcases reaches_of_merge (.inl .refl) hafter with ha | ha
    · exact .inl ⟨a, hk, ha⟩
    · exact .inr ⟨a, hk, ha⟩
  · rintro (hx | hy)
    · exact hgrow.reachesKey hx
    · exact merge_covers h hy

/-- It makes a union of the attestations where keys tell them apart. -/
theorem merge_reaches {fuel : Nat} (h : merge fuel x y heap = (.ok (), heap'))
    (hx : heap.Regular x) (hy : heap.Regular y) (a : Attestation) (m : Bytes) :
    heap'.Reaches x a m ↔ heap.Reaches x a m ∨ heap.Reaches y a m := by
  have hback : ∀ a, heap'.Reaches x a m → heap.Reaches x a m ∨ heap.Reaches y a m := by
    intro a ha
    have hafter : (merge fuel x y heap).2.Reaches x a m := by
      rw [h]
      exact ha
    exact reaches_of_merge (.inl .refl) hafter
  constructor
  · exact hback a
  · intro ha
    have hregular : a.Regular := ha.elim (hx a m) (hy a m)
    have hkeys := (merge_reachesKey h (attestationKey a) m).mpr
      (ha.imp (fun ha => ⟨a, rfl, ha⟩) fun ha => ⟨a, rfl, ha⟩)
    obtain ⟨a', hkey, ha'⟩ := hkeys
    obtain rfl := attestationKey_inj ((hback a' ha').elim (hx a' m) (hy a' m)) hregular hkey
    exact ha'

/-- A second merge that returns reaches nothing that the first did not. -/
theorem merge_again_reachesKey {fuel fuel' : Nat} {heap'' : Heap}
    (h : merge fuel x y heap = (.ok (), heap')) (h' : merge fuel' x y heap' = (.ok (), heap''))
    (k m : Bytes) : heap''.ReachesKey x k m ↔ heap'.ReachesKey x k m := by
  rw [merge_reachesKey h']
  constructor
  · rintro (hx | ⟨a, hk, ha⟩)
    · exact hx
    · have hafter : (merge fuel x y heap).2.Reaches y a m := by
        rw [h]
        exact ha
      exact (merge_reachesKey h k m).mpr ((reaches_of_merge (.inr .refl) hafter).imp
        (fun ha => ⟨a, hk, ha⟩) fun ha => ⟨a, hk, ha⟩)
  · exact .inl

/-- **Merging two trees unites them.** -/
theorem merge_heldApart {t u : Timestamp} (ht : t.Derived H A) (hu : u.Derived H A)
    (hmsg : t.msg = u.msg) (h : heldApart t u = (x, y, heap)) :
    ∃ n heap', (∀ fuel ≥ n, merge fuel x y heap = (.ok (), heap') ∧ ∃ reached,
      heap'.reachable fuel x = .ok reached ∧ ∀ k m,
        (∃ a, attestationKey a = k ∧ (a, m) ∈ reached) ↔
          ∃ a, attestationKey a = k ∧ ((a, m) ∈ reachable t ∨ (a, m) ∈ reachable u)) ∧
      (u.UniqueOps → ∀ fuel ≥ n, merge fuel x y heap' = (.ok (), heap')) := by
  have hheld := heldApart_spec ht hu h
  obtain ⟨rank, hranked, hrank⟩ := hheld.ranked
  have hmsgs : (heap.node x).msg = (heap.node y).msg := by
    rw [hheld.msg_left, hheld.msg_right, hmsg]
  obtain ⟨n, heap', hrun⟩ := merge_returns hheld.derived hranked hrank hmsgs
  have hranked' := hranked.merge hrank n
  rw [hrun n le_rfl] at hranked'
  have hagain : ∃ n', u.UniqueOps → ∀ fuel ≥ n', merge fuel x y heap' = (.ok (), heap') := by
    by_cases hunique : u.UniqueOps
    · obtain ⟨n', hn'⟩ := merge_again hranked hrank hheld.unshared (hheld.uniqueOps hunique)
        hheld.apart (hrun n le_rfl)
      exact ⟨n', fun _ => hn'⟩
    · exact ⟨0, fun h => absurd h hunique⟩
  obtain ⟨n', hn'⟩ := hagain
  refine ⟨n + n' + rank x + 1, heap', ?_, fun hunique fuel hfuel => hn' hunique fuel (by omega)⟩
  intro fuel hfuel
  obtain ⟨reached, hreached, hmem⟩ :=
    hranked'.reachable (show rank x < fuel by omega)
  refine ⟨hrun fuel (by omega), reached, hreached, ?_⟩
  intro k m
  have hunion := merge_reachesKey (hrun n le_rfl) k m
  constructor
  · rintro ⟨a, hk, ha⟩
    rcases hunion.mp ⟨a, hk, (hmem a m).mp ha⟩ with ⟨b, hb, hreaches⟩ | ⟨b, hb, hreaches⟩
    · exact ⟨b, hb, .inl ((hheld.reaches_left b m).mp hreaches)⟩
    · exact ⟨b, hb, .inr ((hheld.reaches_right b m).mp hreaches)⟩
  · rintro ⟨a, hk, ha⟩
    obtain ⟨b, hb, hreaches⟩ := hunion.mpr (ha.imp
      (fun ha => ⟨a, hk, (hheld.reaches_left a m).mpr ha⟩)
      fun ha => ⟨a, hk, (hheld.reaches_right a m).mpr ha⟩)
    exact ⟨b, hb, (hmem b m).mpr hreaches⟩

/-- **Merging proofs loses nothing.** Whatever two proofs share, a merge that returns unites what
they reach, another merge of the same proof adds nothing to it, and every message stays derived. It
returns, and leaves trees, where matched nodes have one rank; two trees that share no node are
united, and merging again changes nothing where no node of the second has an operation twice. An
upgrade removes nothing, whatever the calendars answer. -/
theorem merge_unites :
    (∀ fuel x y heap heap', merge fuel x y heap = (.ok (), heap') →
      (∀ k m, heap'.ReachesKey x k m ↔ heap.ReachesKey x k m ∨ heap.ReachesKey y k m) ∧
      (heap.Regular x → heap.Regular y → ∀ a m,
        heap'.Reaches x a m ↔ heap.Reaches x a m ∨ heap.Reaches y a m) ∧
      ∀ fuel' heap'', merge fuel' x y heap' = (.ok (), heap'') →
        ∀ k m, heap''.ReachesKey x k m ↔ heap'.ReachesKey x k m) ∧
    (∀ fuel x y heap, heap.Derived H A → (merge fuel x y heap).2.Derived H A) ∧
    (∀ heap rank x y, heap.Derived H A → heap.Ranked rank → rank x = rank y →
      (heap.node x).msg = (heap.node y).msg → ∃ n heap', heap'.Ranked rank ∧
        (∀ fuel ≥ n, merge fuel x y heap = (.ok (), heap')) ∧
          (heap.Unshared x → heap.Apart x y → heap.UniqueOps y →
            ∃ n', ∀ fuel ≥ n', merge fuel x y heap' = (.ok (), heap'))) ∧
    (∀ (t u : Timestamp) x y heap, t.Derived H A → u.Derived H A → t.msg = u.msg →
      heldApart t u = (x, y, heap) → ∃ n heap',
        (∀ fuel ≥ n, merge fuel x y heap = (.ok (), heap') ∧ ∃ reached,
          heap'.reachable fuel x = .ok reached ∧ ∀ k m,
            (∃ a, attestationKey a = k ∧ (a, m) ∈ reached) ↔
              ∃ a, attestationKey a = k ∧ ((a, m) ∈ reachable t ∨ (a, m) ∈ reachable u)) ∧
        (u.UniqueOps → ∀ fuel ≥ n, merge fuel x y heap' = (.ok (), heap'))) ∧
    ∀ fuel answers root (heap : Heap),
      (heap.Scoped → root < heap.next → ∀ a m, heap.Reaches root a m →
        (upgrade H A fuel answers root heap).2.Reaches root a m) ∧
      (heap.Sound H A → (upgrade H A fuel answers root heap).2.Sound H A) := by
  refine ⟨?_, ?_, ?_, ?_, ?_⟩
  · intro fuel x y heap heap' h
    exact ⟨merge_reachesKey h, merge_reaches h, fun _ _ h' => merge_again_reachesKey h h'⟩
  · intro fuel x y heap h
    exact h.merge fuel x y
  · intro heap rank x y hderived hranked hrank hmsg
    obtain ⟨n, heap', hrun⟩ := merge_returns hderived hranked hrank hmsg
    have hranked' := hranked.merge hrank n
    rw [hrun n le_rfl] at hranked'
    exact ⟨n, heap', hranked', hrun, fun hx hapart hy =>
      merge_again hranked hrank hx hy hapart (hrun n le_rfl)⟩
  · intro t u x y heap ht hu hmsg h
    exact merge_heldApart ht hu hmsg h
  · intro fuel answers root heap
    obtain ⟨hextends, hsound⟩ := upgrade_keeps (H := H) (A := A) fuel answers root heap
    exact ⟨fun hscoped hroot a m => (hextends hscoped).reaches hscoped hroot, hsound⟩

/-- A tree about a byte that a block is attested for. -/
def attestedStamp : Timestamp := .mk [1] [.bitcoin 1] []

/-- A tree about the same byte that leads to a block. -/
def leadingStamp : Timestamp := .mk [1] [] [({ tag := 0xf0, arg := some [2] },
  .mk [1, 2] [.bitcoin 2] [])]

/-- Both trees in memory. -/
def twoStamps : Heap := (heldApart attestedStamp leadingStamp).2.2

theorem merge_unites_twoStamps : ∃ n heap',
    (∀ fuel ≥ n, merge fuel 0 2 twoStamps = (.ok (), heap')) ∧
      (∀ fuel ≥ n, merge fuel 0 2 heap' = (.ok (), heap')) ∧
        (∀ a m, heap'.Reaches 0 a m ↔ twoStamps.Reaches 0 a m ∨ twoStamps.Reaches 2 a m) ∧
          (upgrade Reference.host Reference.anchorHost 5 [.notFound] 0 twoStamps).2.Reaches 0
            (.bitcoin 1) [1] := by
  have hderived : attestedStamp.Derived Reference.host Reference.anchorHost :=
    Timestamp.derived_leaf _ _
  have hderived' : leadingStamp.Derived Reference.host Reference.anchorHost :=
    .mk (List.forall_mem_singleton.mpr rfl)
      (List.forall_mem_singleton.mpr (Timestamp.derived_leaf _ _))
  have hunique : leadingStamp.UniqueOps :=
    .mk (List.nodup_singleton _) (List.forall_mem_singleton.mpr (.mk .nil (List.forall_mem_nil _)))
  have hheld := heldApart_spec hderived hderived' (x := 0) (y := 2) rfl
  obtain ⟨hreturns, _, _, htrees, hupgrade⟩ :=
    merge_unites (H := Reference.host) (A := Reference.anchorHost)
  obtain ⟨n, heap', hrun, hagain⟩ := htrees _ _ 0 2 twoStamps hderived hderived' rfl rfl
  have hregular : twoStamps.Regular 0 := by
    intro a m ha
    have hmem := (hheld.reaches_left a m).mp ha
    simp [reachable, reachableOps, attestedStamp] at hmem
    rw [hmem.1]
    trivial
  have hregular' : twoStamps.Regular 2 := by
    intro a m ha
    have hmem := (hheld.reaches_right a m).mp ha
    simp [reachable, reachableOps, leadingStamp] at hmem
    rw [hmem.1]
    trivial
  refine ⟨n, heap', fun fuel hfuel => (hrun fuel hfuel).1, hagain hunique,
    (hreturns n 0 2 _ _ (hrun n le_rfl).1).2.1 hregular hregular', ?_⟩
  apply (hupgrade 5 [.notFound] 0 twoStamps).1 hheld.refs (by decide)
  exact (hheld.reaches_left _ _).mpr (by simp [reachable, reachableOps, attestedStamp])

/-- A tree with one operation twice, below an operation. -/
def repeatedStamp : Timestamp :=
  .mk [1] [] [({ tag := 0xf0, arg := some [2] }, .mk [1, 2] []
    [({ tag := 0xf0, arg := some [3] }, .mk [1, 2, 3] [.bitcoin 1] []),
      ({ tag := 0xf0, arg := some [3] }, .mk [1, 2, 3] [.bitcoin 2] [])])]

/-- Two nodes about nothing, the second of which leads to the first. -/
def nestedHeap : Heap where
  node x := if x = 1 then { ops := [({ tag := 0xf0, arg := some [] }, 0)] } else {}
  next := 2

/-- Merging a tree again changes it where it has an operation twice, and a tree that is merged with
one around it is no tree any more: what it reaches is never listed. -/
theorem merging_changes_more :
    (∃ heap heap' heap'', heldApart (.mk [1] [] []) repeatedStamp = (0, 4, heap) ∧
      merge 9 0 4 heap = (.ok (), heap') ∧ merge 9 0 4 heap' = (.ok (), heap'') ∧
        (heap'.node 1).attestations = [.bitcoin 1] ∧
          (heap''.node 1).attestations = [.bitcoin 1, .bitcoin 2]) ∧
    (nestedHeap.Derived Reference.host Reference.anchorHost ∧
      nestedHeap.reachable 2 0 = .ok [] ∧ nestedHeap.reachable 3 1 = .ok [] ∧
        ∃ heap', merge 9 0 1 nestedHeap = (.ok (), heap') ∧
          ∀ fuel reached, heap'.reachable fuel 0 ≠ .ok reached) := by
  constructor
  · exact ⟨_, _, _, rfl, rfl, rfl, rfl, rfl⟩
  · have hops : ((merge 9 0 1 nestedHeap).2.node 0).ops =
        [({ tag := 0xf0, arg := some [] }, 0)] := rfl
    refine ⟨?_, rfl, rfl, (merge 9 0 1 nestedHeap).2, rfl, ?_⟩
    · intro x entry he
      by_cases hx : x = 1
      · subst hx
        obtain rfl := List.mem_singleton.mp he
        rfl
      · simp [nestedHeap, hx] at he
    · intro fuel
      induction fuel with
      | zero => exact fun _ h => nomatch h
      | succ fuel ih =>
        intro reached h
        rw [Heap.reachable, hops, List.mapM_cons] at h
        obtain ⟨below, hbelow, _⟩ := bind_eq_ok.mp h
        obtain ⟨reached', hreached, _⟩ := bind_eq_ok.mp hbelow
        exact ih reached' hreached

end CoolSdk.Anchor
