import CoolSdk.Phala.Anchor
import CoolSdk.Platform.Policy
import CoolSdk.Runtime.Doubles
import Mathlib.Tactic.Ring

/-!
# Writing anchors

The writer of detached timestamp proofs, and the order of their items. Attestations come before
operations, both are sorted, and a byte of its own announces that another item follows. A number
that is written is read back where it is short enough and a double.
-/

namespace CoolSdk.Anchor

/-- The base-128 digits of a number, little-endian, with more digits to follow marked. -/
def varuintDigits : Nat → Nat → Bytes
  | 0, _ => []
  | fuel + 1, n =>
    if n < 128 then [UInt8.ofNat n]
    else UInt8.ofNat (n % 128 + 128) :: varuintDigits fuel (n / 128)

/-- A base-128 number. -/
def writeVaruint (n : Nat) : Bytes := varuintDigits (n + 1) n

/-- Bytes behind their length. -/
def writeVarbytes (value : Bytes) : Bytes := writeVaruint value.length ++ value

def KnownTag (tag : Bytes) : Prop :=
  tag = TAG_PENDING ∨ tag = TAG_BITCOIN ∨ tag = TAG_LITECOIN ∨ tag = TAG_ETHEREUM

def attestationTag : Attestation → Bytes
  | .pending _ => TAG_PENDING
  | .bitcoin _ => TAG_BITCOIN
  | .litecoin _ => TAG_LITECOIN
  | .ethereum _ => TAG_ETHEREUM
  | .unknown tag _ => tag

/-- What an attestation's payload holds. -/
def attestationPayload : Attestation → Bytes
  | .pending uri => writeVarbytes (utf8 uri)
  | .bitcoin height | .litecoin height | .ethereum height => writeVaruint height
  | .unknown _ payload => payload

def writeAttestation (attestation : Attestation) : Bytes :=
  attestationTag attestation ++ writeVarbytes (attestationPayload attestation)

/-- An operation, without the node about its result. -/
def writeOp (op : AnchorOp) : Bytes :=
  op.tag :: match op.arg with
    | none => []
    | some arg => writeVarbytes arg

/-! ## Order -/

/-- The first difference of two byte strings, or that of their lengths. -/
def compareBytes : Bytes → Bytes → Int
  | a :: as, b :: bs => if a = b then compareBytes as bs else (a.toNat : Int) - b.toNat
  | as, bs => (as.length : Int) - bs.length

def compareOps (a b : AnchorOp) : Int :=
  if a.tag ≠ b.tag then (a.tag.toNat : Int) - b.tag.toNat
  else compareBytes (a.arg.getD []) (b.arg.getD [])

def compareAttestations (a b : Attestation) : Int :=
  match a, b with
  | .pending a, .pending b => if utf16 a < utf16 b then -1 else if utf16 b < utf16 a then 1 else 0
  | .unknown a p, .unknown b q =>
    if compareBytes a b ≠ 0 then compareBytes a b else compareBytes p q
  | .bitcoin a, .bitcoin b => (a : Int) - b
  | .litecoin a, .litecoin b => (a : Int) - b
  | .ethereum a, .ethereum b => (a : Int) - b
  | a, b => compareBytes (attestationTag a) (attestationTag b)

/-- `sort(compareAttestations)`. -/
def sortAttestations (attestations : List Attestation) : List Attestation :=
  attestations.mergeSort fun a b => decide (compareAttestations a b ≤ 0)

/-- `sort((a, b) => compareOps(a.op, b.op))`. -/
def sortOps {α : Type} (ops : List (AnchorOp × α)) : List (AnchorOp × α) :=
  ops.mergeSort fun a b => decide (compareOps a.1 b.1 ≤ 0)

/-! ## Writing -/

/-- Items with a byte before each but the last. -/
def separate : List Bytes → Bytes
  | [] => []
  | [item] => item
  | item :: items => 0xff :: item ++ separate items

mutual

/-- A node and all below it. -/
def writeTimestamp : Timestamp → Except String Bytes
  | .mk _ attestations ops => do
    let written ← writeStamps ops
    if attestations = [] ∧ written = [] then
      throw "a timestamp with neither attestation nor operation says nothing"
    return separate ((sortAttestations attestations).map (fun a => 0x00 :: writeAttestation a) ++
      (sortOps written).map fun entry => writeOp entry.1 ++ entry.2)

/-- The operations of a node, each with what is written of the node about its result. -/
def writeStamps : List (AnchorOp × Timestamp) → Except String (List (AnchorOp × Bytes))
  | [] => .ok []
  | (op, stamp) :: ops => do
    let bytes ← writeTimestamp stamp
    let rest ← writeStamps ops
    return (op, bytes) :: rest

end

/-- A detached proof file; it says that the digest is a SHA-256. -/
def serialiseProof (digest : Bytes) (timestamp : Timestamp) : Except String Bytes := do
  let proof ← writeTimestamp timestamp
  return HEADER_MAGIC ++ writeVaruint MAJOR_VERSION ++ [0x08] ++ digest ++ proof

def attestationKey (attestation : Attestation) : Bytes := writeAttestation attestation

def opKey (op : AnchorOp) : Bytes := writeOp op

/-! ## Numbers -/

/-- The digits of one number: all but the last announce another. -/
def IsVaruint : Bytes → Prop
  | [] => False
  | [b] => b.toNat < 128
  | b :: c :: rest => 128 ≤ b.toNat ∧ IsVaruint (c :: rest)

variable {n k : Nat} {b b' rest rest' input : Bytes}

theorem varuintDigits_eq {fuel fuel' : Nat} (h : n < fuel) (h' : n < fuel') :
    varuintDigits fuel n = varuintDigits fuel' n := by
  induction fuel generalizing n fuel' with
  | zero => omega
  | succ fuel ih =>
    cases fuel' with
    | zero => omega
    | succ fuel' =>
      rw [varuintDigits, varuintDigits]
      split_ifs with hn
      · rfl
      · exact congrArg _ (ih (by omega) (by omega))

theorem writeVaruint_of_lt (h : n < 128) : writeVaruint n = [UInt8.ofNat n] := by
  rw [writeVaruint, varuintDigits, if_pos h]

theorem writeVaruint_of_le (h : 128 ≤ n) :
    writeVaruint n = UInt8.ofNat (n % 128 + 128) :: writeVaruint (n / 128) := by
  rw [writeVaruint, varuintDigits, if_neg (by omega), writeVaruint]
  exact congrArg _ (varuintDigits_eq (by omega) (by omega))

/-- The digits of a number, lowest first. -/
theorem writeVaruint_induction {p : Nat → Prop} (small : ∀ n < 128, p n)
    (large : ∀ n, 128 ≤ n → p (n / 128) → p n) (n : Nat) : p n := by
  induction n using Nat.strongRecOn with
  | ind n ih =>
    by_cases hn : n < 128
    · exact small n hn
    · exact large n (by omega) (ih (n / 128) (by omega))

theorem writeVaruint_ne_nil (n : Nat) : writeVaruint n ≠ [] := by
  by_cases hn : n < 128
  · rw [writeVaruint_of_lt hn]
    exact List.cons_ne_nil _ _
  · rw [writeVaruint_of_le (by omega)]
    exact List.cons_ne_nil _ _

theorem writeVaruint_injective : Function.Injective writeVaruint := by
  have hdigit : ∀ {a b : Nat}, a < 256 → b < 256 → UInt8.ofNat a = UInt8.ofNat b → a = b := by
    intro a b ha hb h
    have hnat := congrArg UInt8.toNat h
    rwa [UInt8.toNat_ofNat', UInt8.toNat_ofNat', Nat.mod_eq_of_lt ha, Nat.mod_eq_of_lt hb] at hnat
  intro n m h
  induction n using writeVaruint_induction generalizing m with
  | small n hn =>
    rw [writeVaruint_of_lt hn] at h
    by_cases hm : m < 128
    · rw [writeVaruint_of_lt hm] at h
      exact hdigit (by omega) (by omega) (List.cons.inj h).1
    · rw [writeVaruint_of_le (n := m) (by omega)] at h
      exact absurd (List.cons.inj h).2.symm (writeVaruint_ne_nil _)
  | large n hn ih =>
    rw [writeVaruint_of_le hn] at h
    by_cases hm : m < 128
    · rw [writeVaruint_of_lt hm] at h
      exact absurd (List.cons.inj h).2 (writeVaruint_ne_nil _)
    · rw [writeVaruint_of_le (n := m) (by omega)] at h
      obtain ⟨hhead, htail⟩ := List.cons.inj h
      have hlow := hdigit (by omega) (by omega) hhead
      have hhigh := ih htail
      omega

theorem IsVaruint.cons {x : UInt8} (hx : 128 ≤ x.toNat) (h : IsVaruint b) :
    IsVaruint (x :: b) := by
  cases b with
  | nil => exact h.elim
  | cons y b => exact ⟨hx, h⟩

theorem isVaruint_write (n : Nat) : IsVaruint (writeVaruint n) := by
  induction n using writeVaruint_induction with
  | small n hn =>
    rw [writeVaruint_of_lt hn]
    show (UInt8.ofNat n).toNat < 128
    rw [UInt8.toNat_ofNat']
    omega
  | large n hn ih =>
    rw [writeVaruint_of_le hn]
    apply ih.cons
    rw [UInt8.toNat_ofNat']
    omega

/-- Where a number ends is seen from its digits. -/
theorem IsVaruint.append_inj (h : IsVaruint b) (h' : IsVaruint b') (heq : b ++ rest = b' ++ rest') :
    b = b' ∧ rest = rest' := by
  induction b generalizing b' with
  | nil => exact h.elim
  | cons x b ih =>
    cases b' with
    | nil => exact h'.elim
    | cons y b' =>
      obtain ⟨rfl, htail⟩ := List.cons.inj heq
      cases b with
      | nil =>
        cases b' with
        | nil => exact ⟨rfl, htail⟩
        | cons y' b' => exact absurd h (not_lt.mpr h'.1)
      | cons x' b =>
        cases b' with
        | nil => exact absurd h' (not_lt.mpr h.1)
        | cons y' b' =>
          obtain ⟨hb, hrest⟩ := ih h.2 h'.2 htail
          exact ⟨congrArg _ hb, hrest⟩

/-- What a reader of numbers takes off the front are the digits of one, at most so many, and what
it makes of them is a double whatever follows. -/
theorem varuintFrom_split {left shift v : Nat}
    (h : varuintFrom left shift v input = .ok (n, rest)) :
    ∃ b, IsVaruint b ∧ b.length ≤ left ∧ input = b ++ rest ∧ JsNumber.IsDouble n ∧
      ∀ rest', varuintFrom left shift v (b ++ rest') = .ok (n, rest') := by
  induction left generalizing shift v input with
  | zero => cases h
  | succ left ih =>
    cases input with
    | nil => cases h
    | cons x input =>
      rw [varuintFrom, readByte, ok_bind] at h
      dsimp only at h
      split_ifs at h with hx
      · cases h
        refine ⟨[x], hx, Nat.succ_le_succ (Nat.zero_le _), rfl,
          JsNumber.isDouble_nearestDouble _, ?_⟩
        intro rest'
        rw [List.singleton_append, varuintFrom, readByte, ok_bind]
        dsimp only
        rw [if_pos hx]
        rfl
      · obtain ⟨b, hb, hlen, rfl, hdouble, hread⟩ := ih h
        refine ⟨x :: b, hb.cons (not_lt.mp hx), Nat.succ_le_succ hlen, rfl, hdouble, ?_⟩
        intro rest'
        rw [List.cons_append, varuintFrom, readByte, ok_bind]
        dsimp only
        rw [if_neg hx, hread]

theorem varuint_split (h : varuint input = .ok (n, rest)) :
    ∃ b, IsVaruint b ∧ b.length ≤ 9 ∧ input = b ++ rest ∧ JsNumber.IsDouble n ∧
      ∀ rest', varuint (b ++ rest') = .ok (n, rest') := varuintFrom_split h

/-- A number read with nothing behind it is read in front of anything. -/
theorem varuint_append (h : varuint b = .ok (n, [])) (rest : Bytes) :
    varuint (b ++ rest) = .ok (n, rest) := by
  obtain ⟨b', _, _, hb, _, hread⟩ := varuint_split h
  rw [hb, List.append_nil]
  exact hread rest

theorem isVaruint_of_varuint (h : varuint b = .ok (n, [])) : IsVaruint b ∧ b.length ≤ 9 := by
  obtain ⟨b', hb', hlen, hb, _⟩ := varuint_split h
  rw [hb, List.append_nil]
  exact ⟨hb', hlen⟩

/-- The digits that are left of a number add up to it on those that were read. -/
theorem varuintFrom_write {left shift v : Nat} (hv : v < 2 ^ shift) (hn : n < 128 ^ left)
    (hleft : 0 < left) (hdouble : JsNumber.IsDouble (v + n * 2 ^ shift)) (rest : Bytes) :
    varuintFrom left shift v (writeVaruint n ++ rest) = .ok (v + n * 2 ^ shift, rest) := by
  induction left generalizing shift v n with
  | zero => omega
  | succ left ih =>
    by_cases hsmall : n < 128
    · have hx : (UInt8.ofNat n).toNat = n := by
        rw [UInt8.toNat_ofNat']
        omega
      rw [writeVaruint_of_lt hsmall, List.singleton_append, varuintFrom, readByte, ok_bind]
      dsimp only
      rw [hx, if_pos hsmall, Nat.mod_eq_of_lt hsmall, hdouble]
      rfl
    · have hx : (UInt8.ofNat (n % 128 + 128)).toNat = n % 128 + 128 := by
        rw [UInt8.toNat_ofNat']
        omega
      have hsplit : n % 128 + 128 * (n / 128) = n := Nat.mod_add_div n 128
      have hpow : (2 : Nat) ^ (shift + 7) = 128 * 2 ^ shift := by
        rw [Nat.pow_add, Nat.mul_comm]
      have htotal : v + n % 128 * 2 ^ shift + n / 128 * 2 ^ (shift + 7) = v + n * 2 ^ shift := by
        rw [hpow]
        nth_rewrite 3 [← hsplit]
        ring
      have hlow : v + n % 128 * 2 ^ shift < 2 ^ (shift + 7) := by
        have hdigit : n % 128 * 2 ^ shift ≤ 127 * 2 ^ shift :=
          Nat.mul_le_mul_right _ (Nat.le_of_lt_succ (Nat.mod_lt n (by decide)))
        rw [hpow]
        omega
      have hround : JsNumber.nearestDouble (v + n % 128 * 2 ^ shift) = v + n % 128 * 2 ^ shift := by
        have hmod := hdouble.mod (shift + 7)
        rw [← htotal, Nat.add_mul_mod_self_right, Nat.mod_eq_of_lt hlow] at hmod
        exact hmod
      have hmore : 0 < left := by
        by_contra hzero
        obtain rfl : left = 0 := by omega
        omega
      have hquot : n / 128 < 128 ^ left := by
        rw [Nat.div_lt_iff_lt_mul (by decide), ← Nat.pow_succ]
        exact hn
      rw [writeVaruint_of_le (by omega), List.cons_append, varuintFrom, readByte, ok_bind]
      dsimp only
      rw [hx, if_neg (by omega), Nat.add_mod_right, Nat.mod_mod, hround,
        ih hlow hquot hmore (by rw [htotal]; exact hdouble), htotal]

/-- A short number that is a double reads back. -/
theorem varuint_write (hn : n < 2 ^ 63) (hdouble : JsNumber.IsDouble n) (rest : Bytes) :
    varuint (writeVaruint n ++ rest) = .ok (n, rest) := by
  have hread := varuintFrom_write (show 0 < 2 ^ 0 by decide) (show n < 128 ^ 9 by omega)
    (by decide) (by rwa [Nat.zero_add, Nat.pow_zero, Nat.mul_one]) rest
  rw [Nat.zero_add, Nat.pow_zero, Nat.mul_one] at hread
  exact hread

theorem length_writeVaruint_le (h : (writeVaruint n).length ≤ k) : n < 128 ^ k := by
  induction n using writeVaruint_induction generalizing k with
  | small n hn =>
    rw [writeVaruint_of_lt hn] at h
    exact hn.trans_le (Nat.le_self_pow (by rw [List.length_singleton] at h; omega) 128)
  | large n hn ih =>
    rw [writeVaruint_of_le hn, List.length_cons] at h
    obtain ⟨k, rfl⟩ : ∃ k', k = k' + 1 := ⟨k - 1, by omega⟩
    have hquot := ih (k := k) (by omega)
    rw [Nat.div_lt_iff_lt_mul (by decide), ← Nat.pow_succ] at hquot
    exact hquot

end CoolSdk.Anchor
