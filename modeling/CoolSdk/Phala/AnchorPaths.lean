import CoolSdk.Phala.Anchor

/-!
# Paths in a proof

A proof stores no message: the reader derives every one from its parent's. What is attested at the
end of a path is therefore about the result of the path's operations, and a proof is confirmed
where all of its paths to a block end in the merkle root of that block.
-/

namespace CoolSdk.Anchor

variable (H : Host) (A : AnchorHost)

/-- The operations of a path, applied in order. -/
def applyOps : List AnchorOp → Bytes → Except String Bytes
  | [], msg => .ok msg
  | op :: path, msg => applyOp H A op msg >>= applyOps path

/-- The operations on the way from a proof's message to something that is attested. -/
inductive Timestamp.Attests : Timestamp → List AnchorOp → Attestation → Prop
  | here {msg : Bytes} {attestations : List Attestation} {ops : List (AnchorOp × Timestamp)}
      {a : Attestation} (ha : a ∈ attestations) : Attests (.mk msg attestations ops) [] a
  | step {msg : Bytes} {attestations : List Attestation} {ops : List (AnchorOp × Timestamp)}
      {a : Attestation} {entry : AnchorOp × Timestamp} {path : List AnchorOp} (he : entry ∈ ops)
      (h : Attests entry.2 path a) : Attests (.mk msg attestations ops) (entry.1 :: path) a

/-- Every message is what the operation before it makes of the parent's. -/
inductive Timestamp.Derived : Timestamp → Prop
  | mk {msg : Bytes} {attestations : List Attestation} {ops : List (AnchorOp × Timestamp)}
      (hop : ∀ entry ∈ ops, applyOp H A entry.1 msg = .ok entry.2.msg)
      (hstamp : ∀ entry ∈ ops, Derived entry.2) : Derived (.mk msg attestations ops)

/-- A proof about a digest names a block, and every path to a block derives from the digest the
merkle root its header has, in reverse byte order. -/
structure Confirms (headers : Nat → Option String) (digest : Bytes) (t : Timestamp) : Prop where
  exists_block : ∃ path height, t.Attests path (.bitcoin height)
  every_block : ∀ path height, t.Attests path (.bitcoin height) →
    ∃ commitment root, applyOps H A path digest = .ok commitment ∧ headers height = some root ∧
      toHex commitment.reverse = toLowerCase root

variable {H A} {t : Timestamp} {a : Attestation} {commitment digest : Bytes}

/-! ## What the reader derives -/

theorem Timestamp.Derived.cons {msg : Bytes} {attestations : List Attestation} {op : AnchorOp}
    {stamp : Timestamp} {ops : List (AnchorOp × Timestamp)}
    (hop : applyOp H A op msg = .ok stamp.msg) (hstamp : stamp.Derived H A)
    (h : (Timestamp.mk msg attestations ops).Derived H A) (attestations' : List Attestation) :
    (Timestamp.mk msg attestations' ((op, stamp) :: ops)).Derived H A := by
  cases h with
  | mk hops hstamps =>
    refine .mk ?_ ?_
    · intro entry he
      rcases List.mem_cons.mp he with rfl | he
      · exact hop
      · exact hops entry he
    · intro entry he
      rcases List.mem_cons.mp he with rfl | he
      · exact hstamp
      · exact hstamps entry he

theorem Timestamp.Derived.withAttestations {msg : Bytes} {attestations : List Attestation}
    {ops : List (AnchorOp × Timestamp)} (h : (Timestamp.mk msg attestations ops).Derived H A)
    (attestations' : List Attestation) :
    (Timestamp.mk msg attestations' ops).Derived H A := by
  cases h with
  | mk hops hstamps => exact .mk hops hstamps

theorem Timestamp.derived_leaf (msg : Bytes) (attestations : List Attestation) :
    (Timestamp.mk msg attestations []).Derived H A :=
  .mk (by simp) (by simp)

/-- An item that is read extends a derived node to a derived node. -/
theorem readOne_derived {next : Bytes → Bytes → Except String (Timestamp × Bytes)}
    (hnext : ∀ {msg input t rest}, next msg input = .ok (t, rest) → t.msg = msg ∧ t.Derived H A)
    {msg input rest : Bytes} {tag : UInt8} {attestations attestations' : List Attestation}
    {ops ops' : List (AnchorOp × Timestamp)}
    (h : readOne H A next msg tag input = .ok (attestations, ops, rest))
    (hrest : (Timestamp.mk msg attestations' ops').Derived H A) :
    (Timestamp.mk msg (attestations ++ attestations') (ops ++ ops')).Derived H A := by
  rw [readOne] at h
  split_ifs at h
  · obtain ⟨_, _, h⟩ := bind_eq_ok.mp h
    cases h
    exact hrest.withAttestations _
  · simp only [bind_eq_ok] at h
    obtain ⟨⟨op, _⟩, _, derived, hop, ⟨stamp, _⟩, hstamp, h⟩ := h
    cases h
    obtain ⟨hmsg, hderived⟩ := hnext hstamp
    rw [← hmsg] at hop
    exact .cons hop hderived hrest _

/-- The reader derives every message of the proof it returns. -/
theorem readTimestamp_derived {fuel : Nat} {msg input rest : Bytes}
    (h : readTimestamp H A fuel msg input = .ok (t, rest)) : t.msg = msg ∧ t.Derived H A := by
  induction fuel generalizing msg input t rest with
  | zero => cases h
  | succ fuel ih =>
    rw [readTimestamp] at h
    obtain ⟨⟨tag, input⟩, _, h⟩ := bind_eq_ok.mp h
    dsimp only at h
    split_ifs at h
    · simp only [bind_eq_ok] at h
      obtain ⟨_, _, ⟨attestations, ops, _⟩, hone, ⟨⟨msg', attestations', ops'⟩, _⟩, hrest, h⟩ := h
      cases h
      obtain ⟨hmsg, hderived⟩ := ih hrest
      rw [Timestamp.msg] at hmsg
      rw [hmsg] at hderived
      exact ⟨rfl, readOne_derived ih hone hderived⟩
    · obtain ⟨⟨attestations, ops, _⟩, hone, h⟩ := bind_eq_ok.mp h
      cases h
      have hderived := readOne_derived ih hone (Timestamp.derived_leaf msg [])
      rw [List.append_nil, List.append_nil] at hderived
      exact ⟨rfl, hderived⟩

/-- A proof file is about its digest, and its proof is derived from it. -/
theorem parseProof_derived {bytes : Bytes} (h : parseProof H A bytes = .ok (digest, t)) :
    t.msg = digest ∧ t.Derived H A := by
  rw [parseProof] at h
  obtain ⟨⟨magic, _⟩, _, h⟩ := bind_eq_ok.mp h
  dsimp only at h
  split_ifs at h
  · cases h
  · obtain ⟨⟨version, _⟩, _, h⟩ := bind_eq_ok.mp h
    dsimp only at h
    split_ifs at h
    · cases h
    · simp only [bind_eq_ok] at h
      obtain ⟨_, _, _, _, _, hread, h⟩ := h
      cases h
      exact readTimestamp_derived hread

/-! ## Paths and commitments -/

theorem mem_reachableOps {p : Attestation × Bytes} {ops : List (AnchorOp × Timestamp)} :
    p ∈ reachableOps ops ↔ ∃ entry ∈ ops, p ∈ reachable entry.2 := by
  induction ops with
  | nil => simp [reachableOps]
  | cons entry ops ih =>
    rw [reachableOps, List.mem_append, ih, List.exists_mem_cons_iff]

/-- What a derived proof reaches is attested at the end of a path, about what the operations make
of the proof's message. -/
theorem Timestamp.Derived.mem_reachable (h : t.Derived H A) :
    (a, commitment) ∈ reachable t ↔
      ∃ path, t.Attests path a ∧ applyOps H A path t.msg = .ok commitment := by
  induction h with
  | mk hop hstamp ih =>
    rename_i msg attestations ops
    rw [reachable, List.mem_append, mem_reachableOps, List.mem_map]
    constructor
    · rintro (⟨a, ha, hpair⟩ | ⟨entry, he, hmem⟩)
      · cases hpair
        exact ⟨[], .here ha, rfl⟩
      · obtain ⟨path, hpath, hops⟩ := (ih entry he).mp hmem
        refine ⟨entry.1 :: path, .step he hpath, ?_⟩
        rw [applyOps, Timestamp.msg, hop entry he, ok_bind, hops]
    · rintro ⟨path, hpath, hops⟩
      cases hpath with
      | here ha =>
        cases hops
        exact Or.inl ⟨a, ha, rfl⟩
      | step he hpath =>
        rw [applyOps, Timestamp.msg, hop _ he, ok_bind] at hops
        exact Or.inr ⟨_, he, (ih _ he).mpr ⟨_, hpath, hops⟩⟩

/-- No operation on a path of a derived proof is refused. -/
theorem Timestamp.Derived.exists_commitment (h : t.Derived H A) {path : List AnchorOp}
    (hpath : t.Attests path a) : ∃ commitment, applyOps H A path t.msg = .ok commitment := by
  induction hpath with
  | here ha => exact ⟨_, rfl⟩
  | step he hpath ih =>
    cases h with
    | mk hop hstamp =>
      obtain ⟨commitment, hops⟩ := ih (hstamp _ he)
      refine ⟨commitment, ?_⟩
      rw [applyOps, Timestamp.msg, hop _ he, ok_bind, hops]

/-! ## Headers -/

theorem mem_bitcoinHeights {reached : List (Attestation × Bytes)} {height : Nat} :
    (height, commitment) ∈ bitcoinHeights reached ↔
      (Attestation.bitcoin height, commitment) ∈ reached := by
  rw [bitcoinHeights, List.mem_filterMap]
  constructor
  · rintro ⟨⟨a, c⟩, hmem, hpair⟩
    cases a <;> cases hpair
    exact hmem
  · intro hmem
    exact ⟨_, hmem, rfl⟩

theorem checkHeaders_confirmed_iff {headers : Nat → Option String} {blocks : List (Nat × Bytes)} :
    checkHeaders headers blocks = .confirmed ↔ ∀ block ∈ blocks, ∃ root,
      headers block.1 = some root ∧ toHex block.2.reverse = toLowerCase root := by
  induction blocks with
  | nil => simp [checkHeaders]
  | cons block blocks ih =>
    rw [checkHeaders, List.forall_mem_cons, ← ih]
    cases hheader : headers block.1 with
    | none => simp
    | some root =>
      by_cases hroot : toHex block.2.reverse = toLowerCase root
      · simp [hroot]
      · simp [hroot]

/-- A derived proof is confirmed exactly where it is about the digest, a header source is given,
and every block it names has the merkle root that its paths derive. -/
theorem verifyAnchor_confirmed_iff (h : t.Derived H A)
    {source : Option (Nat → Option String)} :
    verifyAnchor digest t source = .confirmed ↔
      t.msg = digest ∧ ∃ headers, source = some headers ∧ Confirms H A headers digest t := by
  unfold verifyAnchor
  by_cases hmsg : t.msg = digest
  · rw [if_neg (not_not_intro (congrArg toHex hmsg))]
    subst hmsg
    have hblocks : ∀ height c, (height, c) ∈ bitcoinHeights (reachable t) ↔
        ∃ path, t.Attests path (.bitcoin height) ∧ applyOps H A path t.msg = .ok c :=
      fun height c => mem_bitcoinHeights.trans h.mem_reachable
    cases source with
    | none =>
      generalize bitcoinHeights (reachable t) = blocks
      cases blocks <;> simp
    | some headers =>
      have hconfirms : Confirms H A headers t.msg t ↔ bitcoinHeights (reachable t) ≠ [] ∧
          checkHeaders headers (bitcoinHeights (reachable t)) = .confirmed := by
        rw [checkHeaders_confirmed_iff]
        constructor
        · rintro ⟨⟨path, height, hpath⟩, hevery⟩
          obtain ⟨c, hops⟩ := h.exists_commitment hpath
          refine ⟨List.ne_nil_of_mem ((hblocks height c).mpr ⟨path, hpath, hops⟩), ?_⟩
          rintro ⟨height, c⟩ hmem
          obtain ⟨path, hpath, hops⟩ := (hblocks height c).mp hmem
          obtain ⟨c', root, hops', hheader, hroot⟩ := hevery path height hpath
          cases hops.symm.trans hops'
          exact ⟨root, hheader, hroot⟩
        · rintro ⟨hne, hevery⟩
          obtain ⟨⟨height, c⟩, hmem⟩ := List.exists_mem_of_ne_nil _ hne
          obtain ⟨path, hpath, -⟩ := (hblocks height c).mp hmem
          refine ⟨⟨path, height, hpath⟩, ?_⟩
          intro path height hpath
          obtain ⟨c, hops⟩ := h.exists_commitment hpath
          obtain ⟨root, hheader, hroot⟩ :=
            hevery (height, c) ((hblocks height c).mpr ⟨path, hpath, hops⟩)
          exact ⟨c, root, hops, hheader, hroot⟩
      simp only [Option.some.injEq, exists_eq_left', true_and, hconfirms]
      generalize bitcoinHeights (reachable t) = blocks
      cases blocks with
      | nil => simp
      | cons block blocks => simp
  · rw [if_pos fun hhex => hmsg (toHex_injective hhex)]
    simp [hmsg]

end CoolSdk.Anchor
