import Mathlib.Data.List.Basic
import Mathlib.Tactic.SplitIfs
import Mathlib.Algebra.Order.Ring.Nat

/-!
# Deterministic CBOR

Data items under the core deterministic encoding of RFC 8949: every count and integer
in the shortest head, every length definite. The code is self-delimiting, so what
follows an encoding never changes how it is read, and no encoding extends another.
-/

namespace CoolSdk.Cbor

/-- A data item. Map keys are text. -/
inductive Item
  | unsigned (n : Nat)
  /-- The integer `-1 - n`. -/
  | negative (n : Nat)
  | bytes (b : List UInt8)
  /-- Text by its UTF-8 bytes. -/
  | text (b : List UInt8)
  | array (items : List Item)
  | map (entries : List (List UInt8 × Item))
  /-- A simple value of one byte. -/
  | simple (n : Nat)

/-- The low `k` bytes of a number, most significant first. -/
def bigEndian : Nat → Nat → List UInt8
  | 0, _ => []
  | k + 1, n => bigEndian k (n / 256) ++ [UInt8.ofNat (n % 256)]

/-- The additional information of the shortest head and the bytes that follow it. -/
def headSize (n : Nat) : Nat × Nat :=
  if n < 24 then (n, 0) else if n < 256 then (24, 1) else if n < 65536 then (25, 2)
  else if n < 4294967296 then (26, 4) else (27, 8)

/-- The shortest head of a major type and an argument. -/
def head (major n : Nat) : List UInt8 :=
  UInt8.ofNat (32 * major + (headSize n).1) :: bigEndian (headSize n).2 n

mutual

/-- The deterministic encoding of an item. -/
def encode : Item → List UInt8
  | .unsigned n => head 0 n
  | .negative n => head 1 n
  | .bytes b => head 2 b.length ++ b
  | .text b => head 3 b.length ++ b
  | .array xs => head 4 xs.length ++ encodeItems xs
  | .map es => head 5 es.length ++ encodeEntries es
  | .simple n => head 7 n

def encodeItems : List Item → List UInt8
  | [] => []
  | x :: xs => encode x ++ encodeItems xs

def encodeEntries : List (List UInt8 × Item) → List UInt8
  | [] => []
  | (k, v) :: es => head 3 k.length ++ (k ++ (encode v ++ encodeEntries es))

end

/-- The arguments a head can carry. -/
abbrev argumentLimit : Nat := 18446744073709551616

mutual

/-- Whether every argument of an item fits its head. -/
def valid : Item → Bool
  | .unsigned n => decide (n < argumentLimit)
  | .negative n => decide (n < argumentLimit)
  | .bytes b => decide (b.length < argumentLimit)
  | .text b => decide (b.length < argumentLimit)
  | .array xs => decide (xs.length < argumentLimit) && validItems xs
  | .map es => decide (es.length < argumentLimit) && validEntries es
  | .simple n => decide (n < 24)

def validItems : List Item → Bool
  | [] => true
  | x :: xs => valid x && validItems xs

def validEntries : List (List UInt8 × Item) → Bool
  | [] => true
  | (k, v) :: es => decide (k.length < argumentLimit) && (valid v && validEntries es)

end

theorem length_bigEndian (k n : Nat) : (bigEndian k n).length = k := by
  induction k generalizing n with
  | zero => rfl
  | succ k ih => simp only [bigEndian, List.length_append, ih, List.length_singleton]

/-- Bytes of a fixed width determine the number they hold. -/
theorem bigEndian_injective {k n m : Nat} (hn : n < 256 ^ k) (hm : m < 256 ^ k)
    (h : bigEndian k n = bigEndian k m) : n = m := by
  induction k generalizing n m with
  | zero =>
    simp only [pow_zero] at hn hm
    omega
  | succ k ih =>
    have hl : (bigEndian k (n / 256)).length = (bigEndian k (m / 256)).length := by
      rw [length_bigEndian, length_bigEndian]
    obtain ⟨hdiv, hmod⟩ := List.append_inj h hl
    have hdiv' : n / 256 = m / 256 := by
      refine ih ?_ ?_ hdiv
      · rw [pow_succ] at hn
        exact Nat.div_lt_of_lt_mul (by rwa [Nat.mul_comm] at hn)
      · rw [pow_succ] at hm
        exact Nat.div_lt_of_lt_mul (by rwa [Nat.mul_comm] at hm)
    have hmod' := congrArg UInt8.toNat (List.singleton_inj.mp hmod)
    simp only [UInt8.toNat_ofNat', Nat.reducePow, Nat.mod_mod] at hmod'
    omega

private theorem headSize_fst_lt (n : Nat) : (headSize n).1 < 32 := by
  unfold headSize
  split_ifs <;> simp only <;> omega

/-- The additional information fixes the width, and the argument itself when that is zero. -/
private theorem headSize_inj {n n' : Nat} (h : (headSize n).1 = (headSize n').1) :
    (headSize n).2 = (headSize n').2 ∧ ((headSize n).2 = 0 → n = n') := by
  revert h
  unfold headSize
  split_ifs <;> simp <;> omega

private theorem lt_of_headSize {n : Nat} (hn : n < argumentLimit) (hz : (headSize n).2 ≠ 0) :
    n < 256 ^ (headSize n).2 := by
  simp only [argumentLimit] at hn
  revert hz
  unfold headSize
  split_ifs <;> simp only <;> omega

/-- A head separates its major type and argument from whatever follows. -/
theorem head_append_inj {m m' n n' : Nat} {r s : List UInt8} (hm : m < 8) (hm' : m' < 8)
    (hn : n < argumentLimit) (hn' : n' < argumentLimit)
    (h : head m n ++ r = head m' n' ++ s) : m = m' ∧ n = n' ∧ r = s := by
  simp only [head, List.cons_append, List.cons.injEq] at h
  obtain ⟨hfirst, hrest⟩ := h
  have hlt := headSize_fst_lt n
  have hlt' := headSize_fst_lt n'
  have hbyte := congrArg UInt8.toNat hfirst
  simp only [UInt8.toNat_ofNat', Nat.reducePow] at hbyte
  have hmajor : m = m' := by omega
  have hinfo : (headSize n).1 = (headSize n').1 := by omega
  obtain ⟨hwidth, hsmall⟩ := headSize_inj hinfo
  have hl : (bigEndian (headSize n).2 n).length = (bigEndian (headSize n').2 n').length := by
    rw [length_bigEndian, length_bigEndian, hwidth]
  obtain ⟨harg, hrs⟩ := List.append_inj hrest hl
  refine ⟨hmajor, ?_, hrs⟩
  by_cases hz : (headSize n).2 = 0
  · exact hsmall hz
  · have hbound := lt_of_headSize hn hz
    have hbound' := lt_of_headSize hn' (by rwa [← hwidth])
    rw [← hwidth] at harg hbound'
    exact bigEndian_injective hbound hbound' harg

/-- The major type of an item. -/
def major : Item → Nat
  | .unsigned _ => 0
  | .negative _ => 1
  | .bytes _ => 2
  | .text _ => 3
  | .array _ => 4
  | .map _ => 5
  | .simple _ => 7

/-- The argument in an item's head. -/
def argument : Item → Nat
  | .unsigned n | .negative n | .simple n => n
  | .bytes b | .text b => b.length
  | .array xs => xs.length
  | .map es => es.length

/-- What follows an item's head. -/
def payload : Item → List UInt8
  | .unsigned _ | .negative _ | .simple _ => []
  | .bytes b | .text b => b
  | .array xs => encodeItems xs
  | .map es => encodeEntries es

theorem encode_eq (v : Item) : encode v = head (major v) (argument v) ++ payload v := by
  cases v <;> simp only [encode, major, argument, payload, List.append_nil]

private theorem major_lt (v : Item) : major v < 8 := by
  cases v <;> simp only [major] <;> omega

private theorem argument_lt {v : Item} (h : valid v = true) : argument v < argumentLimit := by
  cases v <;> simp only [valid, Bool.and_eq_true, decide_eq_true_eq] at h <;>
    simp only [argument, argumentLimit] at h ⊢ <;> omega

private theorem encode_head_inj {v w : Item} {r s : List UInt8} (hv : valid v = true)
    (hw : valid w = true) (h : encode v ++ r = encode w ++ s) :
    major v = major w ∧ argument v = argument w ∧ payload v ++ r = payload w ++ s := by
  rw [encode_eq v, encode_eq w, List.append_assoc, List.append_assoc] at h
  exact head_append_inj (major_lt v) (major_lt w) (argument_lt hv) (argument_lt hw) h

mutual

/-- The code is self-delimiting: an encoding ends where the item does. -/
theorem encode_append_inj {v w : Item} {r s : List UInt8} (hv : valid v = true)
    (hw : valid w = true) (h : encode v ++ r = encode w ++ s) : v = w ∧ r = s := by
  obtain ⟨hmajor, harg, hpay⟩ := encode_head_inj hv hw h
  match v, w with
  | .unsigned n, .unsigned m | .negative n, .negative m | .simple n, .simple m =>
    exact ⟨congrArg _ harg, hpay⟩
  | .bytes a, .bytes b | .text a, .text b =>
    obtain ⟨hab, hrs⟩ := List.append_inj hpay harg
    exact ⟨congrArg _ hab, hrs⟩
  | .array xs, .array ys =>
    simp only [valid, Bool.and_eq_true] at hv hw
    obtain ⟨hxs, hrs⟩ := encodeItems_append_inj hv.2 hw.2 harg hpay
    exact ⟨congrArg _ hxs, hrs⟩
  | .map es, .map fs =>
    simp only [valid, Bool.and_eq_true] at hv hw
    obtain ⟨hes, hrs⟩ := encodeEntries_append_inj hv.2 hw.2 harg hpay
    exact ⟨congrArg _ hes, hrs⟩

theorem encodeItems_append_inj {xs ys : List Item} {r s : List UInt8}
    (hx : validItems xs = true) (hy : validItems ys = true) (hl : xs.length = ys.length)
    (h : encodeItems xs ++ r = encodeItems ys ++ s) : xs = ys ∧ r = s := by
  match xs, ys with
  | [], [] => exact ⟨rfl, h⟩
  | x :: xs, y :: ys =>
    simp only [validItems, Bool.and_eq_true] at hx hy
    simp only [encodeItems, List.append_assoc] at h
    obtain ⟨hxy, h⟩ := encode_append_inj hx.1 hy.1 h
    obtain ⟨hxs, hrs⟩ := encodeItems_append_inj hx.2 hy.2 (Nat.succ.inj hl) h
    exact ⟨by rw [hxy, hxs], hrs⟩

theorem encodeEntries_append_inj {es fs : List (List UInt8 × Item)} {r s : List UInt8}
    (he : validEntries es = true) (hf : validEntries fs = true) (hl : es.length = fs.length)
    (h : encodeEntries es ++ r = encodeEntries fs ++ s) : es = fs ∧ r = s := by
  match es, fs with
  | [], [] => exact ⟨rfl, h⟩
  | (k, v) :: es, (j, w) :: fs =>
    simp only [validEntries, Bool.and_eq_true, decide_eq_true_eq] at he hf
    simp only [encodeEntries, List.append_assoc] at h
    obtain ⟨_, hkj, h⟩ := head_append_inj (by omega) (by omega) he.1 hf.1 h
    obtain ⟨hk, h⟩ := List.append_inj h hkj
    obtain ⟨hvw, h⟩ := encode_append_inj he.2.1 hf.2.1 h
    obtain ⟨hes, hrs⟩ := encodeEntries_append_inj he.2.2 hf.2.2 (Nat.succ.inj hl) h
    exact ⟨by rw [hk, hvw, hes], hrs⟩

end

/-- A map's encoding starts with the head of a map. -/
theorem encode_map_head (es : List (List UInt8 × Item)) :
    ∃ c rest, encode (.map es) = c :: rest ∧ c.toNat / 32 = 5 := by
  refine ⟨_, _, rfl, ?_⟩
  have hlt := headSize_fst_lt es.length
  simp only [UInt8.toNat_ofNat', Nat.reducePow]
  omega

/-- A map's encoding lists every key. -/
theorem sum_keys_le_encode_map (es : List (List UInt8 × Item)) :
    (es.map fun e => e.1.length).sum ≤ (encode (.map es)).length := by
  have hentries : (es.map fun e => e.1.length).sum ≤ (encodeEntries es).length := by
    induction es with
    | nil => exact Nat.le_refl _
    | cons e es ih =>
      obtain ⟨k, v⟩ := e
      simp only [List.map_cons, List.sum_cons, encodeEntries, List.length_append]
      omega
  simp only [encode, List.length_append]
  omega

end CoolSdk.Cbor
