import CoolSdk.Core.Fallible
import CoolSdk.Platform.TimestampChain
import Mathlib.Data.List.Sort
import Mathlib.Data.Nat.Find

/-!
# Chains and the order of certificates

A walk that goes wrong can be made the one the search takes: each certificate of the pool has a
number, how many turns a walk from it needs at most to be wrong, and the pool is put in the order
of these numbers. So the verdict is the same for every order, and a path is always found, exactly
where there is no path or no walk that goes wrong.
-/

namespace CoolSdk

/-! ## The first of a list -/

section

variable {α : Type} (key : α → Nat)

/-- Every list can be put in the order of a key, largest first. -/
theorem exists_perm_pairwise (l : List α) :
    ∃ l' : List α, l'.Perm l ∧ l'.Pairwise fun a b => key b ≤ key a := by
  refine ⟨l.mergeSort fun a b => decide (key b ≤ key a), List.mergeSort_perm _ _, ?_⟩
  have hsorted : (l.mergeSort fun a b => decide (key b ≤ key a)).Pairwise
      fun a b => decide (key b ≤ key a) = true := by
    refine List.pairwise_mergeSort (fun a b c hab hbc => ?_) (fun a b => ?_) l
    · rw [decide_eq_true_eq] at hab hbc ⊢
      exact hbc.trans hab
    · rw [Bool.or_eq_true, decide_eq_true_eq, decide_eq_true_eq]
      exact Nat.le_total _ _
  exact hsorted.imp fun h => of_decide_eq_true h

variable {key}

/-- The first that is found in such a list has the largest key. -/
theorem le_of_find?_pairwise {p : α → Bool} {l : List α} {x y : α}
    (hl : l.Pairwise fun a b => key b ≤ key a) (hx : l.find? p = some x) (hy : y ∈ l)
    (hpy : p y = true) : key y ≤ key x := by
  induction l with
  | nil => cases hy
  | cons a l ih =>
    obtain ⟨ha, hl⟩ := List.pairwise_cons.mp hl
    by_cases hpa : p a = true
    · rw [List.find?_cons_of_pos hpa] at hx
      obtain rfl := Option.some.inj hx
      rcases List.mem_cons.mp hy with rfl | hy
      · exact Nat.le_refl _
      · exact ha y hy
    · rw [List.find?_cons_of_neg hpa] at hx
      rcases List.mem_cons.mp hy with rfl | hy
      · exact absurd hpy hpa
      · exact ih hl hx hy

end

namespace NodeCrypto

variable {κ : Type} {C : NodeCrypto κ} {pool pool' : List κ}
  {pinned pinned' : List (PinnedAnchor κ)} {time : Int} {n : Nat}
  {first : Bool} {c leaf : κ} {path : List String} {anchors anchors' : List TsaTrustAnchor}

/-! ## What the search finds -/

theorem find?_self_eq_none (h : C.NotSelf pinned first c) :
    (pinned.find? fun a => !first && C.isSelf c a) = none := by
  refine List.find?_eq_none.mpr fun a ha => ?_
  cases first with
  | true => simp
  | false => simp [h a ha rfl]

theorem find?_anchor_eq_none (h : C.Unanchored pinned c) :
    (pinned.find? fun a => C.issuedBy c a.cert) = none :=
  List.find?_eq_none.mpr fun a ha => by simp [h a ha]

/-- A chain that is found is a path. -/
theorem path_of_chainLoop (h : (C.chainLoop pool pinned time n first c path).1.status = .pass) :
    C.Path pool pinned time n first c := by
  induction n generalizing first c path with
  | zero => cases h
  | succ n ih =>
    rw [chainLoop] at h
    split at h
    · rename_i self hself
      have hfound := List.find?_some hself
      rw [Bool.and_eq_true] at hfound
      cases first with
      | true => cases hfound.1
      | false => exact .self (List.mem_of_find?_eq_some hself) hfound.2
    split at h
    · rename_i anchor hanchor
      have hissued := List.find?_some hanchor
      split_ifs at h with hvalid
      · cases h
      · exact .anchored (List.mem_of_find?_eq_some hanchor) hissued (by simpa using hvalid)
    split at h
    · cases h
    · rename_i issuer hissuer
      split_ifs at h with hca hvalid
      · cases h
      · cases h
      · exact .issued (List.mem_of_find?_eq_some hissuer) (List.find?_some hissuer)
          (by simpa using hca) (by simpa using hvalid) (ih h)

/-- Where no walk goes wrong, the chain is found. -/
theorem chainLoop_of_not_strays (h : ¬C.Strays pool pinned time n first c) :
    (C.chainLoop pool pinned time n first c path).1.status = .pass := by
  induction n generalizing first c path with
  | zero => exact absurd .tooLong h
  | succ n ih =>
    rw [chainLoop]
    split
    · rfl
    rename_i hself
    have hnotSelf : C.NotSelf pinned first c := by
      rintro a ha rfl
      simpa using List.find?_eq_none.mp hself a ha
    split
    · rename_i anchor hanchor
      have hissued := List.find?_some hanchor
      rw [if_neg]
      · rfl
      · intro hvalid
        exact h (.expiredAnchor hnotSelf (List.mem_of_find?_eq_some hanchor) hissued
          (by simpa using hvalid))
    rename_i hanchor
    have hunanchored : C.Unanchored pinned c := fun a ha => by
      simpa using List.find?_eq_none.mp hanchor a ha
    split
    · rename_i hissuer
      refine absurd (.untrusted hnotSelf hunanchored fun issuer hmem => ?_) h
      simpa using List.find?_eq_none.mp hissuer issuer hmem
    · rename_i issuer hissuer
      have hmem := List.mem_of_find?_eq_some hissuer
      have hfound := List.find?_some hissuer
      have hsound : (C.ca issuer && C.valid time issuer) = true := by
        by_contra hrefused
        exact h (.refused hnotSelf hunanchored hmem hfound (Bool.eq_false_iff.mpr hrefused))
      rw [Bool.and_eq_true] at hsound
      rw [hsound.1, hsound.2]
      exact ih fun hstrays => h (.issued hnotSelf hunanchored hmem hfound hstrays)

/-! ## Orders -/

/-- A walk that goes wrong is wrong with fewer turns. -/
theorem Strays.of_succ (h : C.Strays pool pinned time (n + 1) first c) :
    C.Strays pool pinned time n first c := by
  induction n generalizing first c with
  | zero => exact .tooLong
  | succ n ih =>
    cases h with
    | expiredAnchor hself ha hissued hvalid => exact .expiredAnchor hself ha hissued hvalid
    | untrusted hself hanchor hnone => exact .untrusted hself hanchor hnone
    | refused hself hanchor hmem hissuer hrefused =>
      exact .refused hself hanchor hmem hissuer hrefused
    | issued hself hanchor hmem hissuer hstrays =>
      exact .issued hself hanchor hmem hissuer (ih hstrays)

theorem Strays.of_le {m : Nat} (h : C.Strays pool pinned time n first c) (hle : m ≤ n) :
    C.Strays pool pinned time m first c := by
  induction hle with
  | refl => exact h
  | step _ ih => exact ih h.of_succ

open Classical in
/-- How bad it is to go on to a certificate: refused ones are worst, then those from which a walk
is wrong with the most turns. -/
noncomputable def badness (C : NodeCrypto κ) (pool : List κ) (pinned : List (PinnedAnchor κ))
    (time : Int) (c : κ) : Nat :=
  if C.ca c && C.valid time c then
    Nat.findGreatest (fun n => C.Strays pool pinned time n false c) 8
  else 9

open Classical in
theorem le_badness (hn : n ≤ 8)
    (h : (C.ca c && C.valid time c) = false ∨ C.Strays pool pinned time n false c) :
    n ≤ C.badness pool pinned time c := by
  unfold badness
  split_ifs with hsound
  · rcases h with hrefused | hstrays
    · rw [hsound] at hrefused
      cases hrefused
    · exact Nat.le_findGreatest hn hstrays
  · exact hn.trans (by decide)

open Classical in
theorem strays_of_le_badness (hsound : (C.ca c && C.valid time c) = true)
    (h : n ≤ C.badness pool pinned time c) : C.Strays pool pinned time n false c := by
  unfold badness at h
  rw [if_pos hsound] at h
  exact (Nat.findGreatest_spec (P := fun n => C.Strays pool pinned time n false c) (Nat.zero_le 8)
    .tooLong).of_le h

/-- With the worst certificates of the pool first, and the anchors that are not valid, a walk that
goes wrong makes the search fail. -/
theorem chainLoop_of_strays (hpool : ∀ x, x ∈ pool' ↔ x ∈ pool)
    (hpinned : ∀ a, a ∈ pinned' ↔ a ∈ pinned)
    (hworst : pool'.Pairwise fun a b =>
      C.badness pool pinned time b ≤ C.badness pool pinned time a)
    (hexpired : pinned'.Pairwise fun a b =>
      (!C.valid time b.cert).toNat ≤ (!C.valid time a.cert).toNat)
    (hn : n ≤ 8) (h : C.Strays pool pinned time n first c) :
    (C.chainLoop pool' pinned' time n first c path).1.status ≠ .pass := by
  induction n generalizing first c path with
  | zero => nofun
  | succ n ih =>
    have hnone : C.NotSelf pinned first c →
        (pinned'.find? fun a => !first && C.isSelf c a) = none := fun hself =>
      find?_self_eq_none fun a ha => hself a ((hpinned a).mp ha)
    have hanchorless : C.Unanchored pinned c →
        (pinned'.find? fun a => C.issuedBy c a.cert) = none := fun hanchor =>
      find?_anchor_eq_none fun a ha => hanchor a ((hpinned a).mp ha)
    -- the first issuer of the pool is as bad as any other
    have hissuer : ∀ {issuer}, C.NotSelf pinned first c → C.Unanchored pinned c → issuer ∈ pool →
        C.isIssuer c issuer = true → n ≤ C.badness pool pinned time issuer →
        (C.chainLoop pool' pinned' time (n + 1) first c path).1.status ≠ .pass := by
      intro issuer hself hanchor hmem hfound hbad
      rw [chainLoop, hnone hself, hanchorless hanchor]
      dsimp only
      cases hfirst : pool'.find? (C.isIssuer c) with
      | none => nofun
      | some worst =>
        have hle := le_of_find?_pairwise hworst hfirst ((hpool issuer).mpr hmem) hfound
        dsimp only
        split_ifs with hca hvalid
        · nofun
        · nofun
        · refine ih (Nat.le_of_succ_le hn) (strays_of_le_badness ?_ (hbad.trans hle))
          simpa using And.intro hca hvalid
    cases h with
    | expiredAnchor hself ha hissued hvalid =>
      rename_i a
      rw [chainLoop, hnone hself]
      dsimp only
      cases hfirst : pinned'.find? fun a => C.issuedBy c a.cert with
      | none =>
        have := List.find?_eq_none.mp hfirst a ((hpinned a).mpr ha)
        rw [hissued] at this
        exact absurd rfl this
      | some worst =>
        have hle := le_of_find?_pairwise hexpired hfirst ((hpinned a).mpr ha) hissued
        dsimp only
        rw [if_pos]
        · nofun
        · rw [hvalid] at hle
          cases hworst' : C.valid time worst.cert with
          | false => rfl
          | true =>
            rw [hworst'] at hle
            exact absurd hle (by decide)
    | untrusted hself hanchor hnoIssuer =>
      rw [chainLoop, hnone hself, hanchorless hanchor]
      dsimp only
      rw [List.find?_eq_none.mpr fun issuer hmem => by
        simp [hnoIssuer issuer ((hpool issuer).mp hmem)]]
      nofun
    | refused hself hanchor hmem hfound hrefused =>
      exact hissuer hself hanchor hmem hfound (le_badness (Nat.le_of_succ_le hn) (.inl hrefused))
    | issued hself hanchor hmem hfound hstrays =>
      exact hissuer hself hanchor hmem hfound (le_badness (Nat.le_of_succ_le hn) (.inr hstrays))

/-! ## Verdicts -/

/-- A path needs certificates to be there, in any order. -/
theorem Path.congr (hpool : ∀ x, x ∈ pool' ↔ x ∈ pool) (hpinned : ∀ a, a ∈ pinned' ↔ a ∈ pinned)
    (h : C.Path pool pinned time n first c) : C.Path pool' pinned' time n first c := by
  induction h with
  | self ha hself => exact .self ((hpinned _).mpr ha) hself
  | anchored ha hissued hvalid => exact .anchored ((hpinned _).mpr ha) hissued hvalid
  | issued hmem hissuer hca hvalid _ ih =>
    exact .issued ((hpool _).mpr hmem) hissuer hca hvalid ih

/-- A path ends at an anchor. -/
theorem Path.exists_anchor (h : C.Path pool pinned time n first c) : ∃ a, a ∈ pinned := by
  induction h with
  | self ha _ => exact ⟨_, ha⟩
  | anchored ha _ _ => exact ⟨_, ha⟩
  | issued _ _ _ _ _ ih => exact ih

/-- A walk that goes wrong needs certificates to be there, in any order. -/
theorem Strays.congr (hpool : ∀ x, x ∈ pool' ↔ x ∈ pool)
    (hpinned : ∀ a, a ∈ pinned' ↔ a ∈ pinned) (h : C.Strays pool pinned time n first c) :
    C.Strays pool' pinned' time n first c := by
  have hself : ∀ {first c}, C.NotSelf pinned first c → C.NotSelf pinned' first c :=
    fun hself a ha => hself a ((hpinned a).mp ha)
  have hanchor : ∀ {c}, C.Unanchored pinned c → C.Unanchored pinned' c :=
    fun hanchor a ha => hanchor a ((hpinned a).mp ha)
  induction h with
  | tooLong => exact .tooLong
  | expiredAnchor hs ha hissued hvalid =>
    exact .expiredAnchor (hself hs) ((hpinned _).mpr ha) hissued hvalid
  | untrusted hs hu hnone =>
    exact .untrusted (hself hs) (hanchor hu) fun issuer hmem =>
      hnone issuer ((hpool issuer).mp hmem)
  | refused hs hu hmem hissuer hrefused =>
    exact .refused (hself hs) (hanchor hu) ((hpool _).mpr hmem) hissuer hrefused
  | issued hs hu hmem hissuer _ ih =>
    exact .issued (hself hs) (hanchor hu) ((hpool _).mpr hmem) hissuer ih

theorem mapM_pin (h : ∀ a ∈ anchors, ∃ cert, C.certificate a.der = .ok cert) :
    anchors.mapM C.pin = .ok (C.pinnedOf anchors) := by
  induction anchors with
  | nil => rfl
  | cons a anchors ih =>
    obtain ⟨⟨cert, hcert⟩, hanchors⟩ := List.forall_mem_cons.mp h
    have hpin : C.pin a = .ok { name := a.name, cert, fp := C.fp256 a.der } := by
      rw [pin, hcert]
      rfl
    rw [List.mapM_cons, hpin, ok_bind, ih hanchors, ok_bind, pinnedOf, pinnedOf,
      List.filterMap_cons, hpin]
    rfl

/-- The chain is found where there are anchors, all are certificates and the search finds it. -/
theorem chainPasses_iff : C.ChainPasses leaf pool anchors time ↔
    anchors ≠ [] ∧ (∀ a ∈ anchors, ∃ cert, C.certificate a.der = .ok cert) ∧
      (C.chainLoop pool (C.pinnedOf anchors) time 8 true leaf []).1.status = .pass := by
  unfold ChainPasses buildChain
  cases anchors with
  | nil =>
    constructor
    · rintro ⟨result, hresult, hpass⟩
      cases hresult
      cases hpass
    · rintro ⟨hnil, -⟩
      exact absurd rfl hnil
  | cons a anchors =>
    rw [List.isEmpty_cons, if_neg Bool.false_ne_true]
    constructor
    · rintro ⟨result, hresult, hpass⟩
      obtain ⟨pinned, hpinned, hresult⟩ := bind_eq_ok.mp hresult
      cases hresult
      have hreadable : ∀ a' ∈ a :: anchors, ∃ cert, C.certificate a'.der = .ok cert := by
        intro a' ha'
        obtain ⟨_, -, hpin⟩ := exists_mem_of_mapM hpinned ha'
        obtain ⟨cert, hcert, -⟩ := bind_eq_ok.mp hpin
        exact ⟨cert, hcert⟩
      rw [mapM_pin hreadable] at hpinned
      cases hpinned
      exact ⟨List.cons_ne_nil _ _, hreadable, hpass⟩
    · rintro ⟨-, hreadable, hpass⟩
      rw [mapM_pin hreadable]
      exact ⟨_, rfl, hpass⟩

/-- A verdict that passes has a path. -/
theorem path_of_chainPasses (h : C.ChainPasses leaf pool anchors time) :
    C.Path pool (C.pinnedOf anchors) time 8 true leaf :=
  path_of_chainLoop (chainPasses_iff.mp h).2.2

theorem mem_pinnedOf_of_perm (h : anchors'.Perm anchors) (a : PinnedAnchor κ) :
    a ∈ C.pinnedOf anchors' ↔ a ∈ C.pinnedOf anchors :=
  (h.filterMap fun a => (C.pin a).toOption).mem_iff

/-- A walk that goes wrong makes the search fail for some order. -/
theorem exists_order_of_strays (h : C.Strays pool (C.pinnedOf anchors) time 8 true leaf) :
    ∃ pool' anchors', pool'.Perm pool ∧ anchors'.Perm anchors ∧
      ¬C.ChainPasses leaf pool' anchors' time := by
  obtain ⟨pool', hpool, hworst⟩ :=
    exists_perm_pairwise (C.badness pool (C.pinnedOf anchors) time) pool
  obtain ⟨anchors', hanchors, hexpired⟩ := exists_perm_pairwise
    (fun a => ((C.pin a).toOption.map fun p => (!C.valid time p.cert).toNat).getD 0) anchors
  refine ⟨pool', anchors', hpool, hanchors, fun hpasses => ?_⟩
  refine chainLoop_of_strays (fun x => hpool.mem_iff) (mem_pinnedOf_of_perm hanchors) hworst ?_
    (Nat.le_refl 8) h (chainPasses_iff.mp hpasses).2.2
  refine List.pairwise_filterMap.mpr (hexpired.imp fun hle p hp q hq => ?_)
  rwa [hp, hq] at hle

/-- A chain is found where no walk goes wrong, whatever the order. -/
theorem chainPasses_of_not_strays
    (hreadable : ∀ a ∈ anchors, ∃ cert, C.certificate a.der = .ok cert)
    (h : ¬C.Strays pool (C.pinnedOf anchors) time 8 true leaf) :
    C.ChainPasses leaf pool anchors time := by
  have hpass : (C.chainLoop pool (C.pinnedOf anchors) time 8 true leaf []).1.status = .pass :=
    chainLoop_of_not_strays h
  refine chainPasses_iff.mpr ⟨?_, hreadable, hpass⟩
  rintro rfl
  obtain ⟨a, ha⟩ := (path_of_chainLoop hpass).exists_anchor
  cases ha

/-- The verdict is free of the order, and a pass where there is a path, exactly where there is no
path, or every anchor is a certificate and no walk goes wrong. -/
theorem orderFree_iff (C : NodeCrypto κ) (leaf : κ) (pool : List κ) (anchors : List TsaTrustAnchor)
    (time : Int) :
    C.OrderFree leaf pool anchors time ↔
      ¬C.Path pool (C.pinnedOf anchors) time 8 true leaf ∨
        (∀ a ∈ anchors, ∃ cert, C.certificate a.der = .ok cert) ∧
          ¬C.Strays pool (C.pinnedOf anchors) time 8 true leaf := by
  constructor
  · rintro ⟨horder, hfound⟩
    refine or_iff_not_imp_left.mpr fun hpath => ?_
    have hpasses := hfound (not_not.mp hpath)
    refine ⟨(chainPasses_iff.mp hpasses).2.1, fun hstrays => ?_⟩
    obtain ⟨pool', anchors', hpool, hanchors, hfails⟩ := exists_order_of_strays hstrays
    exact hfails ((horder pool' anchors' hpool hanchors).mpr hpasses)
  · rintro (hpath | ⟨hreadable, hstrays⟩)
    · refine ⟨fun pool' anchors' hpool hanchors => ?_, fun h => absurd h hpath⟩
      constructor
      · intro hpasses
        refine absurd ?_ hpath
        exact (path_of_chainPasses hpasses).congr (fun x => hpool.mem_iff.symm)
          fun a => (mem_pinnedOf_of_perm hanchors a).symm
      · intro hpasses
        exact absurd (path_of_chainPasses hpasses) hpath
    · have hpasses := chainPasses_of_not_strays hreadable hstrays
      refine ⟨fun pool' anchors' hpool hanchors => ?_, fun _ => hpasses⟩
      refine iff_of_true (chainPasses_of_not_strays (fun a ha => ?_) fun h => ?_) hpasses
      · exact hreadable a (hanchors.mem_iff.mp ha)
      · exact hstrays (h.congr (fun x => hpool.mem_iff.symm)
          fun a => (mem_pinnedOf_of_perm hanchors a).symm)

end NodeCrypto

namespace Reference

/-- Certificates by number: 2 and 3 have issued 1, and 9 has issued 2 and 3. The second is valid
until the time 5, the others until 20. -/
def numberedCertificates : NodeCrypto Nat where
  createHash _ data := data
  certificate der :=
    match der with
    | [n] => .ok n.toNat
    | _ => .error "not a certificate"
  raw n := [.ofNat n]
  subject n := "CN=" ++ toString n
  validFrom _ := some 0
  validTo n := some (if n = 2 then 5 else 20)
  ca n := decide (n ≠ 1)
  keyUsage _ := []
  checkIssued c d := decide ((c, d) ∈ [(1, 2), (1, 3), (2, 9), (3, 9)])
  verify c d := decide ((c, d) ∈ [(1, 2), (1, 3), (2, 9), (3, 9)])
  cryptoVerify _ _ _ _ := true

/-- The anchor is the certificate 9. -/
def anchorNine : TsaTrustAnchor := { name := "nine", der := [9] }

/-- An expired issuer that is listed first makes the search fail, though there is a path; listed
last it does not. -/
theorem expired_issuer_first :
    numberedCertificates.Path [2, 3] (numberedCertificates.pinnedOf [anchorNine]) 10 8 true 1 ∧
      ¬numberedCertificates.ChainPasses 1 [2, 3] [anchorNine] 10 ∧
      numberedCertificates.ChainPasses 1 [3, 2] [anchorNine] 10 ∧
      ¬numberedCertificates.OrderFree 1 [2, 3] [anchorNine] 10 := by
  have hpath : numberedCertificates.Path [2, 3] (numberedCertificates.pinnedOf [anchorNine]) 10 8
      true 1 := by
    refine .issued (show 3 ∈ [2, 3] by decide) (by decide) (by decide) (by decide) ?_
    have hnine : (⟨"nine", 9, toHex [9]⟩ : PinnedAnchor Nat) ∈
        numberedCertificates.pinnedOf [anchorNine] := List.mem_singleton.mpr rfl
    exact .anchored hnine (by decide) (by decide)
  have hfails : ¬numberedCertificates.ChainPasses 1 [2, 3] [anchorNine] 10 := by
    rintro ⟨result, hresult, hpass⟩
    cases hresult
    cases hpass
  have hpasses : numberedCertificates.ChainPasses 1 [3, 2] [anchorNine] 10 := ⟨_, rfl, rfl⟩
  exact ⟨hpath, hfails, hpasses, fun horder => hfails (horder.2 hpath)⟩

end Reference

end CoolSdk
