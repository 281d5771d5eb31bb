import CoolSdk.Authz.Request
import CoolSdk.Core.KeyedList
import CoolSdk.Runtime.ReferenceHost

/-!
# What a commitment binds

The documented normal form of a value and what `normalize` keeps of it. Rebuilding an
object member by member loses a member named `__proto__` and every member whose
normalized key occurs again later. Beyond that, a salt of another length can take over
a leading piece of the encoding. A presented value matches exactly in these ways or by
being the committed one.
-/

namespace CoolSdk

open JsValue

/-! ## The documented normal form -/

section

variable (H : Host)

mutual

/-- NFC texts and keys, undefined members dropped, everything else as it is. -/
def documented : JsValue → JsValue
  | .str s => .str (H.nfc s)
  | .array xs => .array (documentedItems xs)
  | .object ms => .object (documentedMembers ms)
  | v => v

def documentedItems : List JsValue → List JsValue
  | [] => []
  | x :: xs => documented x :: documentedItems xs

def documentedMembers : Members → Members
  | [] => []
  | (k, v) :: ms =>
    if v.isUndefined then documentedMembers ms
    else (H.nfc k, documented v) :: documentedMembers ms

end

/-- Two values are the same up to the documented normalization and the order of members. -/
def SameValue (p q : JsValue) : Prop := (documented H p).sortKeys = (documented H q).sortKeys

end

mutual

/-- What rebuilding keeps: of the members with one key the last, and none named
`__proto__`. -/
def kept : JsValue → JsValue
  | .array xs => .array (keptItems xs)
  | .object ms => .object (keptMembers ms)
  | .custom ms => .custom (keptMembers ms)
  | v => v

def keptItems : List JsValue → List JsValue
  | [] => []
  | x :: xs => kept x :: keptItems xs

def keptMembers : Members → Members
  | [] => []
  | (k, v) :: ms =>
    if k = "__proto__" ∨ k ∈ ms.map Prod.fst then keptMembers ms
    else (k, kept v) :: keptMembers ms

end

private theorem keys_keptMembers_subset (ms : Members) :
    ∀ k ∈ (keptMembers ms).map Prod.fst, k ∈ ms.map Prod.fst := by
  induction ms with
  | nil => exact fun _ h => h
  | cons e ms ih =>
    obtain ⟨k', v⟩ := e
    intro k hk
    by_cases he : k' = "__proto__" ∨ k' ∈ ms.map Prod.fst
    · simp only [keptMembers, he, if_true] at hk
      exact List.mem_cons_of_mem k' (ih k hk)
    · simp only [keptMembers, he, if_false, List.map_cons, List.mem_cons] at hk
      rcases hk with rfl | hk
      · exact List.mem_cons_self
      · exact List.mem_cons_of_mem k' (ih k hk)

theorem nodup_keptMembers (ms : Members) : ((keptMembers ms).map Prod.fst).Nodup := by
  induction ms with
  | nil => exact List.nodup_nil
  | cons e ms ih =>
    obtain ⟨k, v⟩ := e
    by_cases he : k = "__proto__" ∨ k ∈ ms.map Prod.fst
    · simpa only [keptMembers, he, if_true] using ih
    · simp only [keptMembers, he, if_false, List.map_cons]
      exact List.nodup_cons.mpr ⟨fun hk => he (Or.inr (keys_keptMembers_subset ms k hk)), ih⟩

/-- Rebuilt members read as the last of their key, but for `__proto__`. -/
theorem get_keptMembers (ms : Members) (k : String) :
    Entries.get (keptMembers ms) k =
      if k = "__proto__" then none else (Entries.last ms k).map kept := by
  induction ms with
  | nil => split <;> rfl
  | cons e ms ih =>
    obtain ⟨k', v⟩ := e
    rw [Entries.last_cons]
    by_cases he : k' = "__proto__" ∨ k' ∈ ms.map Prod.fst
    · simp only [keptMembers, he, if_true, ih]
      by_cases hp : k = "__proto__"
      · simp only [hp, if_true]
      · simp only [hp, if_false]
        by_cases hk : k' = k
        · subst hk
          obtain ⟨w, hw⟩ := Option.isSome_iff_exists.mp
            ((Entries.last_isSome_iff ms k').mpr (he.resolve_left hp))
          rw [hw, Option.some_or]
        · simp only [hk, if_false, Option.or_none]
    · simp only [keptMembers, he, if_false, Entries.get, ih]
      rw [not_or] at he
      by_cases hk : k' = k
      · subst hk
        have hnone : Entries.last ms k' = none := by
          rw [← Option.not_isSome_iff_eq_none, Entries.last_isSome_iff]
          exact he.2
        simp only [if_true, he.1, if_false, hnone, Option.none_or, Option.map_some]
      · simp only [hk, if_false, Option.or_none]

/-- Objects with distinct keys whose values agree up to member order agree up to it. -/
theorem sortMembers_eq_of_get {ms ns : Members} (hm : (ms.map Prod.fst).Nodup)
    (hn : (ns.map Prod.fst).Nodup)
    (h : ∀ k, (Entries.get ms k).map sortKeys = (Entries.get ns k).map sortKeys) :
    sortMembers (sortKeysMembers ms) = sortMembers (sortKeysMembers ns) := by
  rw [sortKeysMembers_eq_map, sortKeysMembers_eq_map]
  apply Entries.insertionSort_eq_of_get
  · intro a b hab hba
    exact keyLe_antisymm hab hba
  · rw [List.map_map]
    exact hm
  · rw [List.map_map]
    exact hn
  · intro k
    rw [Entries.get_map, Entries.get_map, h k]

private theorem sortMembers_kept (ms : Members)
    (h : ∀ e ∈ ms, (kept e.2.sortKeys).sortKeys = (kept e.2).sortKeys) :
    sortMembers (sortKeysMembers (keptMembers (sortMembers (sortKeysMembers ms)))) =
      sortMembers (sortKeysMembers (keptMembers ms)) := by
  apply sortMembers_eq_of_get (nodup_keptMembers _) (nodup_keptMembers _)
  intro k
  rw [get_keptMembers, get_keptMembers, sortMembers, sortKeysMembers_eq_map,
    Entries.last_insertionSort (fun a b hab => by rw [memberLe, hab]; exact keyLe_refl b.1),
    Entries.last_map]
  by_cases hp : k = "__proto__"
  · simp only [hp, if_true]
  · simp only [hp, if_false]
    cases hl : Entries.last ms k with
    | none => rfl
    | some v =>
      have hv := h (k, v) (Entries.mem_of_last hl)
      simp only [Option.map_some, hv]

mutual

/-- What is kept does not depend on the order of members with different keys. -/
theorem sortKeys_kept_sortKeys (v : JsValue) : (kept v.sortKeys).sortKeys = (kept v).sortKeys := by
  match v with
  | .array xs =>
    simp only [sortKeys, kept, sortKeysItems_kept]
  | .object ms =>
    simp only [sortKeys, kept, sortMembers_kept ms (sortKeysMembers_kept ms)]
  | .custom ms =>
    simp only [sortKeys, kept, sortMembers_kept ms (sortKeysMembers_kept ms)]
  | .undefined | .null | .bool _ | .num _ | .str _ | .bytes _ | .foreign _ => rfl

theorem sortKeysItems_kept (xs : List JsValue) :
    sortKeysItems (keptItems (sortKeysItems xs)) = sortKeysItems (keptItems xs) := by
  match xs with
  | [] => rfl
  | x :: xs =>
    simp only [sortKeysItems, keptItems, sortKeys_kept_sortKeys x, sortKeysItems_kept xs]

theorem sortKeysMembers_kept (ms : Members) :
    ∀ e ∈ ms, (kept e.2.sortKeys).sortKeys = (kept e.2).sortKeys := by
  match ms with
  | [] =>
    intro e he
    cases he
  | (k, v) :: ms =>
    intro e he
    rcases List.mem_cons.mp he with rfl | he
    · exact sortKeys_kept_sortKeys v
    · exact sortKeysMembers_kept ms e he

end

mutual

/-- Whether no object of a value has a member named `__proto__` or two with one key. -/
def wellKeyed : JsValue → Bool
  | .array xs => wellKeyedItems xs
  | .object ms | .custom ms =>
    decide (ms.map Prod.fst).Nodup && decide ("__proto__" ∉ ms.map Prod.fst) && wellKeyedMembers ms
  | _ => true

def wellKeyedItems : List JsValue → Bool
  | [] => true
  | x :: xs => wellKeyed x && wellKeyedItems xs

def wellKeyedMembers : Members → Bool
  | [] => true
  | (_, v) :: ms => wellKeyed v && wellKeyedMembers ms

end

mutual

/-- Of a well-keyed value everything is kept. -/
theorem kept_of_wellKeyed {v : JsValue} (h : wellKeyed v = true) : kept v = v := by
  match v with
  | .array xs => rw [kept, keptItems_of_wellKeyed h]
  | .object ms | .custom ms =>
    simp only [wellKeyed, Bool.and_eq_true, decide_eq_true_eq] at h
    obtain ⟨⟨hnodup, hproto⟩, hms⟩ := h
    rw [kept, keptMembers_of_wellKeyed hnodup hproto hms]
  | .undefined | .null | .bool _ | .num _ | .str _ | .bytes _ | .foreign _ => rfl

theorem keptItems_of_wellKeyed {xs : List JsValue} (h : wellKeyedItems xs = true) :
    keptItems xs = xs := by
  match xs with
  | [] => rfl
  | x :: xs =>
    simp only [wellKeyedItems, Bool.and_eq_true] at h
    rw [keptItems, kept_of_wellKeyed h.1, keptItems_of_wellKeyed h.2]

theorem keptMembers_of_wellKeyed {ms : Members} (hnodup : (ms.map Prod.fst).Nodup)
    (hproto : "__proto__" ∉ ms.map Prod.fst) (h : wellKeyedMembers ms = true) :
    keptMembers ms = ms := by
  match ms with
  | [] => rfl
  | (k, v) :: ms =>
    simp only [wellKeyedMembers, Bool.and_eq_true] at h
    rw [List.map_cons, List.nodup_cons] at hnodup
    rw [List.map_cons, List.mem_cons, not_or] at hproto
    have hkeep : ¬(k = "__proto__" ∨ k ∈ ms.map Prod.fst) := by
      rintro (hk | hk)
      · exact hproto.1 hk.symm
      · exact hnodup.1 hk
    rw [keptMembers, if_neg hkeep, kept_of_wellKeyed h.1,
      keptMembers_of_wellKeyed hnodup.2 hproto.2 h.2]

end

section

variable {H : Host}

/-- Two values whose documented forms are kept alike. -/
def KeptAlike (H : Host) (p q : JsValue) : Prop :=
  (kept (documented H p)).sortKeys = (kept (documented H q)).sortKeys

/-- Values that are the same are kept alike. -/
theorem SameValue.keptAlike {p q : JsValue} (h : SameValue H p q) : KeptAlike H p q := by
  rw [KeptAlike, ← sortKeys_kept_sortKeys, h, sortKeys_kept_sortKeys]

/-- Well-keyed values kept alike are the same. -/
theorem KeptAlike.sameValue {p q : JsValue} (h : KeptAlike H p q)
    (hp : wellKeyed (documented H p) = true) (hq : wellKeyed (documented H q) = true) :
    SameValue H p q := by
  rw [KeptAlike, kept_of_wellKeyed hp, kept_of_wellKeyed hq] at h
  exact h

/-! ## What `normalize` computes -/

private theorem get_assign (out : Members) (k j : String) (v : JsValue) :
    Entries.get (assign out k v) j =
      if k = "__proto__" then Entries.get out j
      else if k = j then some v else Entries.get out j := by
  unfold assign
  by_cases hp : k = "__proto__"
  · simp only [hp, if_true]
  · simp only [hp, if_false]
    by_cases hk : k = j
    · subst hk
      simp only [if_true, Entries.get_set_self]
    · simp only [hk, if_false, Entries.get_set_ne _ _ hk]

private theorem nodup_assign {out : Members} (h : (out.map Prod.fst).Nodup) (k : String)
    (v : JsValue) : ((assign out k v).map Prod.fst).Nodup := by
  unfold assign
  split
  · exact h
  · exact Entries.nodup_set h k v

private theorem nodup_normalizeMembers {ms out out' : Members} {path : String}
    (h : normalizeMembers H ms path out = .ok out') (hout : (out.map Prod.fst).Nodup) :
    (out'.map Prod.fst).Nodup := by
  induction ms generalizing out with
  | nil =>
    simp only [normalizeMembers, Except.ok.injEq] at h
    exact h ▸ hout
  | cons e ms ih =>
    obtain ⟨k, v⟩ := e
    unfold normalizeMembers at h
    split at h
    · exact ih h hout
    · obtain ⟨n, _, h⟩ := bind_eq_ok.mp h
      exact ih h (nodup_assign hout _ _)

mutual

/-- A normalized value is what is kept of the documented form, up to member order. -/
theorem sortKeys_normalize {v n : JsValue} {path : String} (h : normalize H v path = .ok n) :
    n.sortKeys = (kept (documented H v)).sortKeys := by
  match v with
  | .null | .str _ | .bool _ | .bytes _ =>
    simp only [normalize, Except.ok.injEq] at h
    subst h
    rfl
  | .num a =>
    unfold normalize at h
    split at h
    · cases h
      rfl
    · cases h
  | .array xs =>
    unfold normalize at h
    obtain ⟨ys, hys, h⟩ := bind_eq_ok.mp h
    cases h
    simp only [documented, kept, sortKeys, sortKeysItems_normalize hys]
  | .object ms =>
    unfold normalize at h
    obtain ⟨out, hout, h⟩ := bind_eq_ok.mp h
    cases h
    simp only [documented, kept, sortKeys]
    congr 1
    apply sortMembers_eq_of_get (nodup_normalizeMembers hout List.nodup_nil) (nodup_keptMembers _)
    intro k
    rw [get_normalizeMembers hout k, get_keptMembers]
    by_cases hp : k = "__proto__"
    · simp only [hp, if_true, Entries.get, Option.map_none]
    · simp only [hp, if_false, Entries.get, Option.map_none, Option.or_none]
  | .undefined | .custom _ | .foreign _ => cases h

theorem sortKeysItems_normalize {xs ys : List JsValue} {path : String} {i : Nat}
    (h : normalizeItems H xs path i = .ok ys) :
    sortKeysItems ys = sortKeysItems (keptItems (documentedItems H xs)) := by
  match xs with
  | [] =>
    cases h
    rfl
  | x :: xs =>
    unfold normalizeItems at h
    obtain ⟨y, hy, h⟩ := bind_eq_ok.mp h
    obtain ⟨ys', hys, h⟩ := bind_eq_ok.mp h
    cases h
    simp only [documentedItems, keptItems, sortKeysItems, sortKeys_normalize hy,
      sortKeysItems_normalize hys]

/-- The members built so far read as the last documented member of each key, and failing
that as before. -/
theorem get_normalizeMembers {ms out out' : Members} {path : String}
    (h : normalizeMembers H ms path out = .ok out') (k : String) :
    (Entries.get out' k).map sortKeys =
      if k = "__proto__" then (Entries.get out k).map sortKeys
      else (((Entries.last (documentedMembers H ms) k).map kept).map sortKeys).or
        ((Entries.get out k).map sortKeys) := by
  match ms with
  | [] =>
    simp only [normalizeMembers, Except.ok.injEq] at h
    subst h
    simp only [documentedMembers, Entries.last, List.filter_nil, List.getLast?_nil,
      Option.map_none, Option.none_or, ite_self]
  | (key, v) :: ms =>
    unfold normalizeMembers at h
    by_cases hu : v.isUndefined = true
    · simp only [hu, if_true] at h
      rw [get_normalizeMembers h k]
      simp only [documentedMembers, hu, if_true]
    · simp only [hu, Bool.false_eq_true, if_false] at h
      obtain ⟨n, hn, h⟩ := bind_eq_ok.mp h
      rw [get_normalizeMembers h k, get_assign]
      simp only [documentedMembers, hu, Bool.false_eq_true, if_false, Entries.last_cons]
      by_cases hp : k = "__proto__"
      · subst hp
        by_cases hk : H.nfc key = "__proto__"
        · simp only [hk, if_true]
        · simp only [hk, if_false, if_true]
      · by_cases hk : H.nfc key = k
        · simp only [hp, hk, if_false, if_true, Option.map_or, Option.map_some,
            sortKeys_normalize hn, Option.or_assoc, Option.some_or]
        · simp only [hp, hk, if_false, Option.or_none, ite_self]

end

mutual

/-- A normalized value is plain data. -/
theorem plain_normalize {v n : JsValue} {path : String} (h : normalize H v path = .ok n) :
    n.plain = true := by
  match v with
  | .null | .str _ | .bool _ | .bytes _ =>
    simp only [normalize, Except.ok.injEq] at h
    subst h
    rfl
  | .num a =>
    unfold normalize at h
    split at h
    · cases h
      rfl
    · cases h
  | .array xs =>
    unfold normalize at h
    obtain ⟨ys, hys, h⟩ := bind_eq_ok.mp h
    cases h
    exact plainItems_normalize hys
  | .object ms =>
    unfold normalize at h
    obtain ⟨out, hout, h⟩ := bind_eq_ok.mp h
    cases h
    simp only [plain, Bool.and_eq_true, decide_eq_true_eq]
    exact ⟨nodup_normalizeMembers hout List.nodup_nil, plainMembers_normalize hout rfl⟩
  | .undefined | .custom _ | .foreign _ => cases h

theorem plainItems_normalize {xs ys : List JsValue} {path : String} {i : Nat}
    (h : normalizeItems H xs path i = .ok ys) : plainItems ys = true := by
  match xs with
  | [] =>
    cases h
    rfl
  | x :: xs =>
    unfold normalizeItems at h
    obtain ⟨y, hy, h⟩ := bind_eq_ok.mp h
    obtain ⟨ys', hys, h⟩ := bind_eq_ok.mp h
    cases h
    simp only [plainItems, plain_normalize hy, plainItems_normalize hys, Bool.and_self]

theorem plainMembers_normalize {ms out out' : Members} {path : String}
    (h : normalizeMembers H ms path out = .ok out') (hout : plainMembers out = true) :
    plainMembers out' = true := by
  match ms with
  | [] =>
    simp only [normalizeMembers, Except.ok.injEq] at h
    exact h ▸ hout
  | (k, v) :: ms =>
    unfold normalizeMembers at h
    split at h
    · exact plainMembers_normalize h hout
    · obtain ⟨n, hn, h⟩ := bind_eq_ok.mp h
      refine plainMembers_normalize h ?_
      unfold assign
      split
      · exact hout
      · rw [plainMembers_iff] at hout ⊢
        intro e he
        rcases Entries.mem_set he with rfl | he
        · exact plain_normalize hn
        · exact hout e he

end

/-! ## What a match means -/

/-- A value can be committed, with this encoding of its normal form. -/
def EncodedAs (H : Host) (v : JsValue) (e : Bytes) : Prop :=
  ∃ n, normalize H v "$" = .ok n ∧ H.canonicalCbor n = .ok e

/-- A value can be normalized. -/
def Committable (H : Host) (v : JsValue) : Prop := ∃ n, normalize H v "$" = .ok n

theorem EncodedAs.committable {v : JsValue} {e : Bytes} (h : EncodedAs H v e) :
    Committable H v := by
  obtain ⟨n, hn, _⟩ := h
  exact ⟨n, hn⟩

theorem EncodedAs.unique {v : JsValue} {e e' : Bytes} (h : EncodedAs H v e)
    (h' : EncodedAs H v e') : e = e' := by
  obtain ⟨n, hn, he⟩ := h
  obtain ⟨n', hn', he'⟩ := h'
  have hnn : n = n' := Except.ok.inj (hn.symm.trans hn')
  subst hnn
  exact Except.ok.inj (he.symm.trans he')

/-- One salt extends the other by a leading piece of the encoding, whose rest is the
encoding of the other value. -/
def SaltShift (H : Host) (p : JsValue) (s : String) (q : JsValue) (t : String) : Prop :=
  ∃ a b x pBytes qBytes, fromHex s = .ok a ∧ fromHex t = .ok b ∧ EncodedAs H p pBytes ∧
    EncodedAs H q qBytes ∧ x ≠ [] ∧
      ((b = a ++ x ∧ pBytes = x ++ qBytes) ∨ (a = b ++ x ∧ qBytes = x ++ pBytes))

/-- The digest a commitment uses. -/
def commitmentDigest (H : Host) (key : Option Bytes) (body : Bytes) : Bytes :=
  match key with
  | some key => H.hmacSha256 key body
  | none => H.sha256 body

/-- The digest does not collide on the two bodies compared. -/
def NoCollision (H : Host) (kind : CommitmentKind) (p : JsValue) (s : String) (q : JsValue)
    (t : String) (key : Option Bytes) : Prop :=
  ∀ x y, commitmentBody H kind p s = .ok x → commitmentBody H kind q t = .ok y →
    commitmentDigest H key x = commitmentDigest H key y → x = y

/-- A committed value has a salt and an encoding, and these make up its body. -/
theorem commitmentBody_eq_ok {kind : CommitmentKind} {v : JsValue} {s : String} {x : Bytes} :
    commitmentBody H kind v s = .ok x ↔
      ∃ a e, fromHex s = .ok a ∧ EncodedAs H v e ∧ x = utf8 kind.domain ++ (a ++ e) := by
  unfold commitmentBody
  constructor
  · intro h
    obtain ⟨a, ha, h⟩ := bind_eq_ok.mp h
    obtain ⟨n, hn, h⟩ := bind_eq_ok.mp h
    obtain ⟨e, he, h⟩ := bind_eq_ok.mp h
    cases h
    exact ⟨a, e, ha, ⟨n, hn, he⟩, rfl⟩
  · rintro ⟨a, e, ha, ⟨n, hn, he⟩, rfl⟩
    exact bind_eq_ok.mpr ⟨a, ha, bind_eq_ok.mpr ⟨n, hn, bind_eq_ok.mpr ⟨e, he, rfl⟩⟩⟩

/-- The commitment is a function of the body. -/
theorem commitValue_congr {kind : CommitmentKind} {p q : JsValue} {s t : String}
    {key : Option Bytes} (h : commitmentBody H kind q t = commitmentBody H kind p s) :
    commitValue H kind q t key = commitValue H kind p s key := by
  simp only [commitValue, h]

/-- Equal commitments come from equal bodies, unless the digest collides. -/
theorem body_eq_of_commitValue {kind : CommitmentKind} {p q : JsValue} {s t : String}
    {key : Option Bytes} {c : Multihash} (hcollision : NoCollision H kind p s q t key)
    (hp : commitValue H kind p s key = .ok c) (hq : commitValue H kind q t key = .ok c) :
    ∃ x, commitmentBody H kind p s = .ok x ∧ commitmentBody H kind q t = .ok x := by
  unfold commitValue at hp hq
  obtain ⟨x, hx, hp⟩ := bind_eq_ok.mp hp
  obtain ⟨y, hy, hq⟩ := bind_eq_ok.mp hq
  have hdigest : ∀ {b : Bytes}, (match key with
      | some key => multihashFromDigest (H.hmacSha256 key b)
      | none => .ok (mhSha256 H b)) = Except.ok c →
      c = multihashPrefix ++ toHex (commitmentDigest H key b) := by
    intro b hb
    cases key with
    | none => exact (Except.ok.inj hb).symm
    | some key =>
      simp only [multihashFromDigest] at hb
      split at hb
      · cases hb
      · exact (Except.ok.inj hb).symm
  have hsame := multihashPrefix_toHex_injective ((hdigest hp).symm.trans (hdigest hq))
  exact ⟨x, hx, hcollision x y hx hy hsame ▸ hy⟩

/-- Values with one encoding are kept alike. -/
theorem keptAlike_of_encodedAs (laws : CanonicalLaws H.canonicalCbor) {p q : JsValue} {e : Bytes}
    (hp : EncodedAs H p e) (hq : EncodedAs H q e) : KeptAlike H p q := by
  obtain ⟨n, hn, hne⟩ := hp
  obtain ⟨m, hm, hme⟩ := hq
  rw [KeptAlike, ← sortKeys_normalize hn, ← sortKeys_normalize hm]
  exact laws.injective n m e (plain_normalize hn) (plain_normalize hm) hne hme

/-- A value kept like one with an encoding has that encoding. -/
theorem encodedAs_of_keptAlike (laws : CanonicalLaws H.canonicalCbor) {p q : JsValue} {e : Bytes}
    (hp : EncodedAs H p e) (hq : Committable H q) (h : KeptAlike H p q) : EncodedAs H q e := by
  obtain ⟨n, hn, hne⟩ := hp
  obtain ⟨m, hm⟩ := hq
  rw [KeptAlike, ← sortKeys_normalize hn, ← sortKeys_normalize hm] at h
  refine ⟨m, hm, ?_⟩
  rw [← laws.orderFree n m (plain_normalize hn) (plain_normalize hm) h]
  exact hne

/-- A presented value and salt match a commitment exactly when they are a salt shift of the
committed ones, or the salt is the same and the value is kept like the committed one. -/
theorem commitmentMatches_iff_shift (laws : CanonicalLaws H.canonicalCbor) {kind : CommitmentKind}
    {p q : JsValue} {s t : String} {key : Option Bytes} {c : Multihash}
    (hp : commitValue H kind p s key = .ok c) (hcollision : NoCollision H kind p s q t key) :
    commitmentMatches H kind c q t key = true ↔
      SaltShift H p s q t ∨ (fromHex t = fromHex s ∧ Committable H q ∧ KeptAlike H p q) := by
  rw [commitmentMatches_iff]
  constructor
  · intro hq
    obtain ⟨x, hx, hy⟩ := body_eq_of_commitValue hcollision hp hq
    obtain ⟨a, pBytes, ha, hpe, rfl⟩ := commitmentBody_eq_ok.mp hx
    obtain ⟨b, qBytes, hb, hqe, he⟩ := commitmentBody_eq_ok.mp hy
    rcases List.append_eq_append_iff.mp (List.append_cancel_left he) with
      ⟨x, hbx, hpx⟩ | ⟨x, hax, hqx⟩
    · by_cases hnil : x = []
      · rw [hnil, List.append_nil] at hbx
        rw [hnil, List.nil_append] at hpx
        subst hbx hpx
        exact Or.inr ⟨hb.trans ha.symm, hqe.committable, keptAlike_of_encodedAs laws hpe hqe⟩
      · exact Or.inl ⟨a, b, x, pBytes, qBytes, ha, hb, hpe, hqe, hnil, Or.inl ⟨hbx, hpx⟩⟩
    · by_cases hnil : x = []
      · rw [hnil, List.append_nil] at hax
        rw [hnil, List.nil_append] at hqx
        subst hax hqx
        exact Or.inr ⟨hb.trans ha.symm, hqe.committable, keptAlike_of_encodedAs laws hpe hqe⟩
      · exact Or.inl ⟨a, b, x, pBytes, qBytes, ha, hb, hpe, hqe, hnil, Or.inr ⟨hax, hqx⟩⟩
  · intro h
    have hbody : commitmentBody H kind q t = commitmentBody H kind p s := by
      rcases h with ⟨a, b, x, pBytes, qBytes, ha, hb, hpe, hqe, _, hx⟩ | ⟨hts, hq, halike⟩
      · rw [commitmentBody_eq_ok.mpr ⟨a, pBytes, ha, hpe, rfl⟩]
        refine commitmentBody_eq_ok.mpr ⟨b, qBytes, hb, hqe, ?_⟩
        rcases hx with ⟨rfl, rfl⟩ | ⟨rfl, rfl⟩ <;> rw [List.append_assoc]
      · unfold commitValue at hp
        obtain ⟨x, hx, _⟩ := bind_eq_ok.mp hp
        obtain ⟨a, e, ha, hpe, rfl⟩ := commitmentBody_eq_ok.mp hx
        rw [hx]
        have hqe := encodedAs_of_keptAlike laws hpe hq halike
        exact commitmentBody_eq_ok.mpr ⟨a, e, hts.trans ha, hqe, rfl⟩
    rw [commitValue_congr hbody]
    exact hp

/-- Values kept alike have one encoding, so a salt shift never is between them. -/
theorem not_keptAlike_of_saltShift (laws : CanonicalLaws H.canonicalCbor) {p q : JsValue}
    {s t : String} (h : SaltShift H p s q t) : ¬KeptAlike H p q := by
  intro halike
  obtain ⟨a, b, x, pBytes, qBytes, _, _, hpe, hqe, hnil, hx⟩ := h
  have he : pBytes = qBytes :=
    (encodedAs_of_keptAlike laws hpe hqe.committable halike).unique hqe
  apply hnil
  rcases hx with ⟨_, hx⟩ | ⟨_, hx⟩
  · rw [← he] at hx
    exact List.append_left_eq_self.mp hx.symm
  · rw [← he] at hx
    exact List.append_left_eq_self.mp hx.symm

/-- What the parameter check establishes. Presented parameters that match are the committed
ones exactly when the presented salt is no shift of the committed one, and the presented
parameters do not differ from the committed ones in lost members alone. -/
theorem paramsMatch_binds_iff (laws : CanonicalLaws H.canonicalCbor) {r : AuthorizationRequest}
    {p q : JsValue} {s t : String} {key : Option Bytes}
    (hp : commitValue H .params p s key = .ok r.paramsCommitment)
    (hcollision : NoCollision H .params p s q t key) :
    (paramsMatch H r q t key = true → SameValue H p q) ↔
      ¬SaltShift H p s q t ∧
        ¬(fromHex t = fromHex s ∧ Committable H q ∧ KeptAlike H p q ∧ ¬SameValue H p q) := by
  have hmatch := commitmentMatches_iff_shift laws hp hcollision
  unfold paramsMatch
  constructor
  · intro h
    refine ⟨?_, ?_⟩
    · intro hshift
      exact not_keptAlike_of_saltShift laws hshift (h (hmatch.mpr (Or.inl hshift))).keptAlike
    · rintro ⟨hts, hq, halike, hdiffer⟩
      exact hdiffer (h (hmatch.mpr (Or.inr ⟨hts, hq, halike⟩)))
  · rintro ⟨hshift, hlost⟩ hm
    rcases hmatch.mp hm with h | ⟨hts, hq, halike⟩
    · exact absurd h hshift
    · by_contra hdiffer
      exact hlost ⟨hts, hq, halike, hdiffer⟩

/-- Under one salt nothing is shifted. -/
theorem not_saltShift_of_fromHex_eq {p q : JsValue} {s t : String} (h : fromHex s = fromHex t) :
    ¬SaltShift H p s q t := by
  rintro ⟨a, b, x, pBytes, qBytes, ha, hb, _, _, hnil, hx⟩
  have hab : a = b := Except.ok.inj (ha.symm.trans (h.trans hb))
  apply hnil
  rcases hx with ⟨hx, _⟩ | ⟨hx, _⟩
  · rw [hab] at hx
    exact List.append_right_eq_self.mp hx.symm
  · rw [hab] at hx
    exact List.append_right_eq_self.mp hx.symm

end

/-! ## Commitments on the reference host -/

namespace Commitment

/-- Random bytes for a request. -/
def randomness : RequestRandom :=
  { paramsSalt := List.replicate 16 7
    contextSalt := List.replicate 16 8
    requestId := List.replicate 12 9
    nonce := List.replicate 16 10 }

/-- A transfer with the given parameters. -/
def transfer (params : JsValue) : RequestInput :=
  { principal := "did:agent:1"
    action := "payments.transfer"
    resource := "acct:1"
    audience := "gw"
    policySelector := "default"
    params
    now := .ofInt 1767225600000 }

/-- The request made for the given parameters and its secrets. -/
def requested (params : JsValue) : Except String (AuthorizationRequest × RequestSecrets) :=
  createAuthorizationRequest Reference.host (transfer params) randomness

/-- Parameters with two members. -/
def payment : JsValue := .object [("amount", .num (.ofInt 5)), ("to", .str "acct:2")]

/-- The same parameters in another order. -/
def reordered : JsValue := .object [("to", .str "acct:2"), ("amount", .num (.ofInt 5))]

private theorem requested_ok (params : JsValue) (h : (requested params).isOk = true) :
    ∃ r secrets, requested params = .ok (r, secrets) ∧
      commitValue Reference.host .params params (toHex randomness.paramsSalt) none =
        .ok r.paramsCommitment ∧ secrets.paramsSalt = toHex randomness.paramsSalt := by
  cases hr : requested params with
  | error err =>
    rw [hr] at h
    cases h
  | ok made =>
    obtain ⟨r, secrets⟩ := made
    have hcommit := (commitments_of_create _ hr).1
    obtain ⟨hparams, hsalt⟩ := secrets_of_create _ hr
    rw [paramsMatch, commitmentMatches_iff, hparams, hsalt] at hcommit
    exact ⟨r, secrets, rfl, hcommit, hsalt⟩

/-- Parameters presented in another order under the committed salt match, and are the same. -/
theorem reordered_matches : ∃ r secrets, requested payment = .ok (r, secrets) ∧
    paramsMatch Reference.host r reordered secrets.paramsSalt none = true ∧
      SameValue Reference.host payment reordered := by
  obtain ⟨r, secrets, hr, hcommit, hsalt⟩ := requested_ok payment (by decide +kernel)
  have hbody : commitmentBody Reference.host .params reordered (toHex randomness.paramsSalt) =
      commitmentBody Reference.host .params payment (toHex randomness.paramsSalt) := by
    decide +kernel
  have hcollision : NoCollision Reference.host .params payment (toHex randomness.paramsSalt)
      reordered (toHex randomness.paramsSalt) none := by
    intro x y hx hy _
    rw [hbody, hx] at hy
    exact Except.ok.inj hy
  have hmatch : paramsMatch Reference.host r reordered (toHex randomness.paramsSalt) none = true := by
    rw [paramsMatch, commitmentMatches_iff, commitValue_congr hbody]
    exact hcommit
  rw [← hsalt] at hmatch hcommit hcollision
  refine ⟨r, secrets, hr, hmatch, ?_⟩
  refine (paramsMatch_binds_iff Reference.canonicalLaws hcommit hcollision).mpr ⟨?_, ?_⟩ hmatch
  · exact not_saltShift_of_fromHex_eq rfl
  · rintro ⟨_, _, halike, hdiffer⟩
    exact hdiffer (halike.sameValue (by decide) (by decide))

/-- Parameters with one nested object. -/
def nested : JsValue := .object [("a", .object [("b", .num (.ofInt 1))])]

/-- The nested object alone. -/
def inner : JsValue := .object [("b", .num (.ofInt 1))]

/-- The salt of `nested`, followed by the three bytes its encoding starts with. -/
def longerSalt : String := toHex (randomness.paramsSalt ++ [0xa1, 0x61, 0x61])

private theorem not_sameValue_nested : ¬SameValue Reference.host nested inner := by
  intro h
  simp [SameValue, documented, documentedMembers, nested, inner, JsValue.isUndefined,
    JsValue.sortKeys, JsValue.sortKeysMembers, JsValue.sortMembers, Reference.host] at h

/-- A request for `nested` accepts `inner` in its place: the longer salt takes over the
start of the encoding. -/
theorem inner_matches_nested : CanonicalLaws Reference.host.canonicalCbor ∧
    ∃ r secrets, requested nested = .ok (r, secrets) ∧
      NoCollision Reference.host .params nested secrets.paramsSalt inner longerSalt none ∧
      paramsMatch Reference.host r inner longerSalt none = true ∧
      ¬SameValue Reference.host nested inner := by
  obtain ⟨r, secrets, hr, hcommit, hsalt⟩ := requested_ok nested (by decide +kernel)
  have hbody : commitmentBody Reference.host .params inner longerSalt =
      commitmentBody Reference.host .params nested (toHex randomness.paramsSalt) := by
    decide +kernel
  refine ⟨Reference.canonicalLaws, r, secrets, hr, ?_, ?_, not_sameValue_nested⟩
  · intro x y hx hy _
    rw [hsalt] at hx
    rw [hbody, hx] at hy
    exact Except.ok.inj hy
  · rw [paramsMatch, commitmentMatches_iff, commitValue_congr hbody]
    exact hcommit

end Commitment

end CoolSdk
