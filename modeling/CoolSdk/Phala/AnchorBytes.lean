import CoolSdk.Phala.AnchorRoundTrip

/-!
# The objects that read and write anchors

The reader keeps its bytes and a position, the writer the bytes it was given so far, with 32-bit
masks and division by 128 on doubles. The reader does what the functions on the remaining bytes
do, and on safe integers the writer appends the base-128 digits, so that what one writes the other
reads, wherever it stands among other bytes.
-/

namespace CoolSdk.Anchor

/-- A byte array of the runtime, whose length is a safe integer. -/
structure Uint8Array where
  bytes : Bytes
  length_lt : bytes.length < 2 ^ 53

/-- The bytes and the position in them. -/
@[ext] structure Reader where
  bytes : Bytes
  offset : Nat
  offset_le : offset ≤ bytes.length

namespace Reader

/-- A reader behind some bytes, in front of others. -/
def between (before input : Bytes) : Reader where
  bytes := before ++ input
  offset := before.length
  offset_le := by
    rw [List.length_append]
    exact Nat.le_add_right _ _

@[simp] theorem between_bytes (before input : Bytes) :
    (between before input).bytes = before ++ input := rfl

@[simp] theorem between_offset (before input : Bytes) :
    (between before input).offset = before.length := rfl

/-- The next byte. -/
def byte (r : Reader) : Except String (UInt8 × Reader) :=
  if h : r.offset < r.bytes.length then .ok (r.bytes[r.offset], ⟨r.bytes, r.offset + 1, h⟩)
  else .error "proof ended mid-structure"

/-- The next bytes. A sum that rounds is beyond every length anyway. -/
def take (n : Nat) (r : Reader) : Except String (Bytes × Reader) :=
  if h : r.offset + n ≤ r.bytes.length then
    .ok ((r.bytes.drop r.offset).take n, ⟨r.bytes, r.offset + n, h⟩)
  else .error "proof ended mid-value"

/-- The loop of `varuint`, at a shift. -/
def varuintLoop (shift value : Nat) (r : Reader) : Except String (Nat × Reader) := do
  let (byte, r) ← r.byte
  let value := JsNumber.nearestDouble (value + (byte &&& 0x7f).toNat * 2 ^ shift)
  if byte &&& 0x80 = 0 then return (value, r)
  else if _h : 56 < shift + 7 then throw "varuint too large to be meaningful"
  else varuintLoop (shift + 7) value r
termination_by 57 - shift

/-- Base-128, little-endian, high bit continues. -/
def varuint (r : Reader) : Except String (Nat × Reader) := varuintLoop 0 0 r

/-- Bytes behind their length. -/
def varbytes (r : Reader) : Except String (Bytes × Reader) := do
  let (n, r) ← r.varuint
  r.take n

end Reader

/-- The bytes written so far. -/
structure Writer where
  chunks : Bytes := []

namespace Writer

/-- Write the low eight bits of a 32-bit number. -/
def byte (value : BitVec 32) (w : Writer) : Writer :=
  { w with chunks := w.chunks ++ [UInt8.ofNat (value &&& 0xff).toNat] }

def bytes (value : Bytes) (w : Writer) : Writer := { w with chunks := w.chunks ++ value }

/-- The loop of `varuint`, for so many rounds at most. -/
def varuintLoop : Nat → Nat → Writer → Option Writer
  | 0, _, _ => none
  | rounds + 1, remaining, w =>
    let byte := BitVec.ofNat 32 remaining &&& 0x7f
    let byte := if 0x7f < remaining then byte ||| 0x80 else byte
    let w := w.byte byte
    if remaining ≤ 0x7f then some w
    else varuintLoop rounds (JsNumber.floorHalved remaining 7) w

/-- A base-128 number. -/
def varuint (value : Nat) (w : Writer) : Option Writer :=
  if value = 0 then some (w.byte 0) else varuintLoop (value + 1) value w

/-- Bytes behind their length. -/
def varbytes (value : Uint8Array) (w : Writer) : Option Writer :=
  (w.varuint value.bytes.length).map (bytes value.bytes)

def finish (w : Writer) : Bytes := w.chunks

end Writer

/-! ## The reader on the remaining bytes -/

variable {α γ : Type} {before input : Bytes}

/-- The reader gives what a function on the remaining bytes gives, and moves behind what that
took off. -/
inductive Follows (before input : Bytes) :
    Except String (α × Reader) → Except String (α × Bytes) → Prop
  | error (e : String) : Follows before input (.error e) (.error e)
  | ok (a : α) (read rest : Bytes) : input = read ++ rest →
      Follows before input (.ok (a, .between (before ++ read) rest)) (.ok (a, rest))

namespace Follows

variable {x : Except String (α × Reader)} {y : Except String (α × Bytes)}

theorem bind {f : α × Reader → Except String (γ × Reader)}
    {g : α × Bytes → Except String (γ × Bytes)} (h : Follows before input x y)
    (hnext : ∀ a read rest, Follows (before ++ read) rest (f (a, .between (before ++ read) rest))
      (g (a, rest))) : Follows before input (x >>= f) (y >>= g) := by
  cases h with
  | error e => exact .error e
  | ok a read rest hread =>
    rw [ok_bind, ok_bind]
    have hrest := hnext a read rest
    generalize f (a, .between (before ++ read) rest) = x' at hrest
    generalize g (a, rest) = y' at hrest
    cases hrest with
    | error e => exact .error e
    | ok c read' rest' hread' =>
      rw [List.append_assoc]
      exact .ok c (read ++ read') rest' (by rw [hread, hread', List.append_assoc])

/-- Where the function succeeds on bytes it takes off, the reader does too. -/
theorem eq_ok {a : α} {read rest : Bytes} (h : Follows before (read ++ rest) x y)
    (hy : y = .ok (a, rest)) : x = .ok (a, .between (before ++ read) rest) := by
  cases h with
  | error e => cases hy
  | ok a' read' rest' hread =>
    cases hy
    rw [List.append_cancel_right hread]

end Follows

theorem Follows.stay (a : α) :
    Follows before input (.ok (a, .between before input)) (.ok (a, input)) := by
  have h : Follows before input (.ok (a, .between (before ++ []) input)) (.ok (a, input)) :=
    .ok a [] input rfl
  rwa [List.append_nil] at h

private theorem between_eq {read rest : Bytes} {r : Reader}
    (hbytes : r.bytes = before ++ (read ++ rest))
    (hoffset : r.offset = before.length + read.length) : r = .between (before ++ read) rest := by
  apply Reader.ext
  · rw [hbytes, Reader.between_bytes, List.append_assoc]
  · rw [hoffset, Reader.between_offset, List.length_append]

theorem byte_follows (before input : Bytes) :
    Follows before input (Reader.between before input).byte (readByte input) := by
  cases input with
  | nil =>
    rw [Reader.byte, dif_neg (by simp)]
    exact .error _
  | cons b rest =>
    have hmore : (Reader.between before (b :: rest)).offset <
        (Reader.between before (b :: rest)).bytes.length := by simp
    have hbyte : (Reader.between before (b :: rest)).byte =
        .ok (b, .between (before ++ [b]) rest) := by
      rw [Reader.byte, dif_pos hmore]
      apply congrArg
      apply Prod.ext
      · simp
      · exact between_eq rfl rfl
    rw [hbyte]
    exact .ok b [b] rest rfl

theorem take_follows (n : Nat) (before input : Bytes) :
    Follows before input ((Reader.between before input).take n) (takeBytes n input) := by
  by_cases hn : input.length < n
  · rw [Reader.take, takeBytes, if_pos hn, dif_neg (by simp; omega)]
    exact .error _
  · have hroom : (Reader.between before input).offset + n ≤
        (Reader.between before input).bytes.length := by
      simp
      omega
    have htake : (Reader.between before input).take n =
        .ok (input.take n, .between (before ++ input.take n) (input.drop n)) := by
      rw [Reader.take, dif_pos hroom]
      apply congrArg
      apply Prod.ext
      · simp
      · apply between_eq
        · rw [List.take_append_drop]
          rfl
        · rw [List.length_take, Nat.min_eq_left (by omega)]
          rfl
    rw [htake, takeBytes, if_neg hn, List.splitAt_eq]
    exact .ok _ _ _ (List.take_append_drop n input).symm

private theorem and_low (b : UInt8) : (b &&& 0x7f).toNat = b.toNat % 128 := by
  rw [UInt8.toNat_and]
  exact Nat.and_two_pow_sub_one_eq_mod b.toNat 7

private theorem and_high (b : UInt8) : b &&& 0x80 = 0 ↔ b.toNat < 128 := by
  have hbits : ∀ x < 256, x &&& 128 = 0 ↔ x < 128 := by decide +kernel
  rw [← UInt8.toNat_inj, UInt8.toNat_and]
  exact hbits b.toNat b.toNat_lt

theorem varuintLoop_follows {left shift : Nat} (hshift : shift + 7 * (left + 1) = 63) (value : Nat)
    (before input : Bytes) :
    Follows before input ((Reader.between before input).varuintLoop shift value)
      (varuintFrom (left + 1) shift value input) := by
  induction left generalizing shift value before input with
  | zero =>
    rw [Reader.varuintLoop, varuintFrom]
    apply (byte_follows before input).bind
    intro b read rest
    dsimp only
    rw [and_low]
    by_cases hb : b.toNat < 128
    · rw [if_pos hb, if_pos ((and_high b).mpr hb)]
      exact .stay _
    · rw [if_neg hb, if_neg (mt (and_high b).mp hb), dif_pos (by omega)]
      exact .error _
  | succ left ih =>
    rw [Reader.varuintLoop, varuintFrom]
    apply (byte_follows before input).bind
    intro b read rest
    dsimp only
    rw [and_low]
    by_cases hb : b.toNat < 128
    · rw [if_pos hb, if_pos ((and_high b).mpr hb)]
      exact .stay _
    · rw [if_neg hb, if_neg (mt (and_high b).mp hb), dif_neg (by omega)]
      exact ih (by omega) _ _ _

theorem varuint_follows (before input : Bytes) :
    Follows before input (Reader.between before input).varuint (varuint input) :=
  varuintLoop_follows rfl 0 before input

theorem varbytes_follows (before input : Bytes) :
    Follows before input (Reader.between before input).varbytes (varbytes input) := by
  apply (varuint_follows before input).bind
  intro n read rest
  exact take_follows n _ rest

/-! ## What is written -/

namespace Writer

variable {n rounds : Nat}

private theorem low_digit (n : Nat) : (BitVec.ofNat 32 n &&& 0x7f).toNat = n % 128 := by
  rw [BitVec.toNat_and, BitVec.toNat_ofNat]
  have hmask : n % 2 ^ 32 &&& 2 ^ 7 - 1 = n % 2 ^ 32 % 2 ^ 7 := Nat.and_two_pow_sub_one_eq_mod _ 7
  have hmod : n % 2 ^ 32 % 2 ^ 7 = n % 2 ^ 7 := Nat.mod_mod_of_dvd n (by decide)
  exact hmask.trans hmod

/-- The last digit of a number is written as it is. -/
theorem byte_last (w : Writer) (hn : n < 128) :
    w.byte (BitVec.ofNat 32 n &&& 0x7f) = { chunks := w.chunks ++ [UInt8.ofNat n] } := by
  have hbits : ∀ x < 128, x &&& 255 = x := by decide +kernel
  have hlow := low_digit n
  rw [Nat.mod_eq_of_lt hn] at hlow
  rw [byte, BitVec.toNat_and, hlow]
  exact congrArg (fun x => Writer.mk (w.chunks ++ [UInt8.ofNat x])) (hbits n hn)

/-- Any other digit is marked. -/
theorem byte_more (w : Writer) (n : Nat) :
    w.byte (BitVec.ofNat 32 n &&& 0x7f ||| 0x80) =
      { chunks := w.chunks ++ [UInt8.ofNat (n % 128 + 128)] } := by
  have hbits : ∀ x < 128, (x ||| 128) &&& 255 = x + 128 := by decide +kernel
  rw [byte, BitVec.toNat_and, BitVec.toNat_or, low_digit n]
  exact congrArg (fun x => Writer.mk (w.chunks ++ [UInt8.ofNat x]))
    (hbits (n % 128) (Nat.mod_lt n (by decide)))

/-- On a safe integer the loop ends, and it has written the digits. -/
theorem varuintLoop_eq (hrounds : n < rounds) (hn : n < 2 ^ 53) (w : Writer) :
    varuintLoop rounds n w = some { chunks := w.chunks ++ writeVaruint n } := by
  induction rounds generalizing n w with
  | zero => omega
  | succ rounds ih =>
    rw [varuintLoop]
    by_cases hsmall : n < 128
    · have hlast : n ≤ 0x7f := by omega
      rw [if_neg (not_lt.mpr hlast), if_pos hlast, byte_last w hsmall, writeVaruint_of_lt hsmall]
    · have hdiv : JsNumber.floorHalved n 7 = n / 128 := JsNumber.floorHalved_eq hn (by decide)
      have hmore : 0x7f < n := by omega
      rw [if_pos hmore, if_neg (not_le.mpr hmore), byte_more, hdiv, ih (by omega) (by omega),
        writeVaruint_of_le (n := n) (by omega), List.append_assoc, List.singleton_append]

theorem varuint_eq (hn : n < 2 ^ 53) (w : Writer) :
    w.varuint n = some { chunks := w.chunks ++ writeVaruint n } := by
  rw [varuint]
  by_cases hzero : n = 0
  · rw [if_pos hzero, hzero]
    rfl
  · rw [if_neg hzero, varuintLoop_eq (Nat.lt_succ_self n) hn]

theorem varbytes_eq (value : Uint8Array) (w : Writer) :
    w.varbytes value = some { chunks := w.chunks ++ writeVarbytes value.bytes } := by
  rw [varbytes, varuint_eq value.length_lt, Option.map_some, writeVarbytes, ← List.append_assoc]
  rfl

end Writer

/-! ## Round trips -/

/-- What is written of a safe integer, or of bytes behind their length, is read back wherever it
stands, and the reader is left at the start of what follows. -/
theorem writer_reader_roundTrip (w : Writer) (following : Bytes) :
    (∀ v < 2 ^ 53, ∃ written, w.varuint v = some { chunks := w.chunks ++ written } ∧
      (Reader.between w.finish (written ++ following)).varuint =
        .ok (v, .between (w.finish ++ written) following)) ∧
      ∀ value : Uint8Array, ∃ written,
        w.varbytes value = some { chunks := w.chunks ++ written } ∧
        (Reader.between w.finish (written ++ following)).varbytes =
          .ok (value.bytes, .between (w.finish ++ written) following) := by
  constructor
  · intro v hv
    have hread := varuint_write (by omega) (JsNumber.isDouble_of_lt hv) following
    exact ⟨writeVaruint v, Writer.varuint_eq hv w, (varuint_follows _ _).eq_ok hread⟩
  · intro value
    exact ⟨writeVarbytes value.bytes, Writer.varbytes_eq value w,
      (varbytes_follows _ _).eq_ok (varbytes_write value.length_lt following)⟩

theorem writer_reader_roundTrip_twoDigits :
    ∃ written, Writer.varuint 300 {} = some { chunks := [] ++ written } ∧
      (Reader.between [] (written ++ [7])).varuint = .ok (300, .between ([] ++ written) [7]) :=
  (writer_reader_roundTrip {} [7]).1 300 (by decide)

end CoolSdk.Anchor
