import CoolSdk.Runtime.Value

/-!
# Byte and text codecs

Hexadecimal, UTF-8 and the prefixed text forms of the wire. Hex decoding accepts
both cases and an even number of digits; encoding writes lowercase, so decoding
inverts encoding and the digest strings determine their digests.
-/

namespace CoolSdk

/-- UTF-8 bytes of a text. -/
def utf8 (text : String) : Bytes := text.toByteArray.data.toList

theorem utf8_injective : Function.Injective utf8 := by
  intro s t h
  exact String.toByteArray_inj.mp (ByteArray.ext (Array.toList_inj.mp h))

/-- Constant-time comparison: equal lengths and no differing bit. -/
def bytesEqual (a b : Bytes) : Bool :=
  if a.length ≠ b.length then false
  else (List.zipWith (· ^^^ ·) a b).foldl (· ||| ·) 0 == 0

private theorem foldl_or_eq_zero (l : List UInt8) (acc : UInt8) :
    l.foldl (· ||| ·) acc = 0 ↔ acc = 0 ∧ ∀ x ∈ l, x = 0 := by
  induction l generalizing acc with
  | nil => simp
  | cons x l ih => simp [ih, UInt8.or_eq_zero_iff, and_assoc]

private theorem zipWith_xor_zero {a b : Bytes} (hl : a.length = b.length)
    (h : ∀ x ∈ List.zipWith (· ^^^ ·) a b, x = 0) : a = b := by
  induction a generalizing b with
  | nil => exact (List.length_eq_zero_iff.mp hl.symm).symm
  | cons x a ih =>
    cases b with
    | nil => simp at hl
    | cons y b =>
      simp only [List.zipWith_cons_cons, List.mem_cons, forall_eq_or_imp] at h
      simp only [List.length_cons, Nat.add_right_cancel_iff] at hl
      rw [ih hl h.2, UInt8.xor_eq_zero_iff.mp h.1]

/-- The comparison decides equality. -/
theorem bytesEqual_iff (a b : Bytes) : bytesEqual a b = true ↔ a = b := by
  unfold bytesEqual
  by_cases hl : a.length = b.length
  · simp only [hl, ne_eq, not_true_eq_false, ite_false, beq_iff_eq, foldl_or_eq_zero, true_and]
    constructor
    · exact zipWith_xor_zero hl
    · rintro rfl x hx
      obtain ⟨i, hi, rfl⟩ := List.getElem_of_mem hx
      simp
  · simp only [ne_eq, hl, not_false_eq_true, ite_true, Bool.false_eq_true, false_iff]
    rintro rfl
    exact hl rfl

/-! ## Hexadecimal

Texts are read through their UTF-8 bytes. Hex digits and the prefixes below are ASCII, so
this is the same as reading characters. -/

/-- The lowercase hex digit of a value below sixteen. -/
def hexDigit (n : Nat) : Char := if n < 10 then Char.ofNat (48 + n) else Char.ofNat (87 + n)

/-- The value of a hex digit of either case. -/
def hexValue? (c : UInt8) : Option Nat :=
  if 48 ≤ c.toNat ∧ c.toNat ≤ 57 then some (c.toNat - 48)
  else if 97 ≤ c.toNat ∧ c.toNat ≤ 102 then some (c.toNat - 87)
  else if 65 ≤ c.toNat ∧ c.toNat ≤ 70 then some (c.toNat - 55)
  else none

/-- The two digits of each byte. -/
def hexDigits (bytes : Bytes) : List Char :=
  bytes.flatMap fun b => [hexDigit (b.toNat / 16), hexDigit (b.toNat % 16)]

/-- Lowercase hex of the given bytes. -/
def toHex (bytes : Bytes) : String := String.ofList (hexDigits bytes)

/-- Read digits two at a time; an odd count or a foreign character has no value. -/
def hexPairs : Bytes → Option Bytes
  | [] => some []
  | [_] => none
  | a :: b :: rest =>
    match hexValue? a, hexValue? b, hexPairs rest with
    | some x, some y, some out => some (UInt8.ofNat (16 * x + y) :: out)
    | _, _, _ => none

/-- Bytes from the UTF-8 of hex digits of either case. -/
def fromHexUtf8 (digits : Bytes) : Except String Bytes :=
  match hexPairs digits with
  | some bytes => .ok bytes
  | none => .error "invalid hex string"

/-- Bytes from hex of either case. -/
def fromHex (hex : String) : Except String Bytes := fromHexUtf8 (utf8 hex)

theorem utf8_ofList (cs : List Char) :
    utf8 (String.ofList cs) = cs.flatMap String.utf8EncodeChar := by
  rw [utf8, String.toByteArray_ofList, List.utf8Encode, List.toList_data_toByteArray]

private theorem hexValue?_hexDigit :
    ∀ n < 16, (String.utf8EncodeChar (hexDigit n)).map hexValue? = [some n] := by
  decide

private theorem hexDigit_spec {n : Nat} (h : n < 16) :
    ∃ c, String.utf8EncodeChar (hexDigit n) = [c] ∧ hexValue? c = some n :=
  List.map_eq_singleton_iff.mp (hexValue?_hexDigit n h)

private theorem hexPairs_utf8 (bytes : Bytes) :
    hexPairs ((hexDigits bytes).flatMap String.utf8EncodeChar) = some bytes := by
  induction bytes with
  | nil => rfl
  | cons b bytes ih =>
    have hb := b.toNat_lt
    obtain ⟨x, hx, hhi⟩ := hexDigit_spec (n := b.toNat / 16) (by omega)
    obtain ⟨y, hy, hlo⟩ := hexDigit_spec (n := b.toNat % 16) (by omega)
    have hsplit : 16 * (b.toNat / 16) + b.toNat % 16 = b.toNat := by omega
    have hcons : hexDigits (b :: bytes) =
        hexDigit (b.toNat / 16) :: hexDigit (b.toNat % 16) :: hexDigits bytes := rfl
    rw [hcons, List.flatMap_cons, List.flatMap_cons, hx, hy, List.singleton_append,
      List.singleton_append, hexPairs, hhi, hlo, ih]
    simp only [hsplit, UInt8.ofNat_toNat]

/-- Decoding inverts encoding. -/
theorem fromHex_toHex (bytes : Bytes) : fromHex (toHex bytes) = .ok bytes := by
  rw [fromHex, fromHexUtf8, toHex, utf8_ofList, hexPairs_utf8]

theorem toHex_injective : Function.Injective toHex := by
  intro a b h
  have he := fromHex_toHex a
  rw [h, fromHex_toHex b] at he
  exact (Except.ok.inj he).symm

private theorem utf8_hexDigit :
    ∀ n < 16, (String.utf8EncodeChar (hexDigit n)).length = 1 ∧
      ∀ c ∈ String.utf8EncodeChar (hexDigit n),
        (decide (48 ≤ c ∧ c ≤ 57) || decide (97 ≤ c ∧ c ≤ 102)) = true := by
  decide +kernel

/-- Every byte is written as two lowercase hex digits. -/
theorem utf8_toHex (bytes : Bytes) :
    (utf8 (toHex bytes)).length = 2 * bytes.length ∧
      (utf8 (toHex bytes)).all (fun c => decide (48 ≤ c ∧ c ≤ 57) || decide (97 ≤ c ∧ c ≤ 102)) =
        true := by
  rw [toHex, utf8_ofList]
  induction bytes with
  | nil => exact ⟨rfl, rfl⟩
  | cons b bytes ih =>
    have hb := b.toNat_lt
    have hhi := utf8_hexDigit (b.toNat / 16) (by omega)
    have hlo := utf8_hexDigit (b.toNat % 16) (by omega)
    have hcons : hexDigits (b :: bytes) =
        hexDigit (b.toNat / 16) :: hexDigit (b.toNat % 16) :: hexDigits bytes := rfl
    rw [hcons, List.flatMap_cons, List.flatMap_cons]
    constructor
    · rw [List.length_append, List.length_append, hhi.1, hlo.1, ih.1, List.length_cons]
      omega
    · rw [List.all_append, List.all_append, ih.2, List.all_eq_true.mpr hhi.2,
        List.all_eq_true.mpr hlo.2]
      rfl

/-- Every byte read takes two digits. -/
theorem length_hexPairs {digits bytes : Bytes} (h : hexPairs digits = some bytes) :
    digits.length = 2 * bytes.length := by
  induction digits using hexPairs.induct generalizing bytes with
  | case1 => cases h; rfl
  | case2 => cases h
  | case3 a b rest x y out hrest hy hx ih =>
    simp only [hexPairs, hx, hy, hrest, Option.some.injEq] at h
    rw [← h, List.length_cons, List.length_cons, List.length_cons, ih hrest]
    omega
  | case4 a b rest hno ih =>
    rw [hexPairs] at h
    split at h
    · rename_i hx hy hrest
      exact (hno _ _ _ hx hy hrest).elim
    · cases h

/-- An even number of lowercase digits is read. -/
theorem exists_hexPairs {digits : Bytes} (heven : digits.length % 2 = 0)
    (hdigits : ∀ c ∈ digits, (48 ≤ c ∧ c ≤ 57) ∨ (97 ≤ c ∧ c ≤ 102)) :
    ∃ bytes, hexPairs digits = some bytes := by
  induction digits using hexPairs.induct with
  | case1 => exact ⟨[], rfl⟩
  | case2 => cases heven
  | case3 a b rest x y out hrest hy hx ih =>
    exact ⟨UInt8.ofNat (16 * x + y) :: out, by simp only [hexPairs, hx, hy, hrest]⟩
  | case4 a b rest hno ih =>
    simp only [List.forall_mem_cons] at hdigits
    obtain ⟨ha, hb, hrest⟩ := hdigits
    have hvalue : ∀ c : UInt8, (48 ≤ c ∧ c ≤ 57) ∨ (97 ≤ c ∧ c ≤ 102) →
        ∃ x, hexValue? c = some x := by
      intro c hc
      simp only [UInt8.le_iff_toNat_le] at hc
      unfold hexValue?
      rcases hc with hc | hc
      · exact ⟨_, if_pos hc⟩
      · refine ⟨c.toNat - 87, ?_⟩
        rw [if_neg fun h => absurd (hc.1.trans h.2) (by decide)]
        exact if_pos hc
    obtain ⟨x, hx⟩ := hvalue a ha
    obtain ⟨y, hy⟩ := hvalue b hb
    obtain ⟨out, hout⟩ := ih (by simp only [List.length_cons] at heven; omega) hrest
    exact (hno x y out hx hy hout).elim

/-! ## Base64 -/

/-- The base64 digit of a value below sixty-four. -/
def base64Digit (n : Nat) : Char :=
  if n < 26 then Char.ofNat (65 + n) else if n < 52 then Char.ofNat (71 + n)
  else if n < 62 then Char.ofNat (n - 4) else if n = 62 then '+' else '/'

/-- Read bytes three at a time as four digits, the last group padded. -/
def base64Digits : Bytes → List Char
  | [] => []
  | [a] =>
    let n := 16 * a.toNat
    [base64Digit (n / 64), base64Digit (n % 64), '=', '=']
  | [a, b] =>
    let n := 4 * (256 * a.toNat + b.toNat)
    [base64Digit (n / 4096), base64Digit (n / 64 % 64), base64Digit (n % 64), '=']
  | a :: b :: c :: rest =>
    let n := 256 * (256 * a.toNat + b.toNat) + c.toNat
    base64Digit (n / 262144) :: base64Digit (n / 4096 % 64) :: base64Digit (n / 64 % 64) ::
      base64Digit (n % 64) :: base64Digits rest

/-- Standard base64 of the given bytes. -/
def toBase64 (bytes : Bytes) : String := String.ofList (base64Digits bytes)

/-! ## Prefixed text -/

/-- What follows a prefix. -/
def dropPrefix? : Bytes → Bytes → Option Bytes
  | [], rest => some rest
  | _ :: _, [] => none
  | p :: pre, c :: text => if p = c then dropPrefix? pre text else none

/-- The UTF-8 of a text after a prefix. -/
def stripPrefix? (pre text : String) : Option Bytes := dropPrefix? (utf8 pre) (utf8 text)

theorem utf8_append (s t : String) : utf8 (s ++ t) = utf8 s ++ utf8 t := by
  simp [utf8]

theorem dropPrefix?_append (pre rest : Bytes) : dropPrefix? pre (pre ++ rest) = some rest := by
  induction pre with
  | nil => rfl
  | cons p pre ih => rw [List.cons_append, dropPrefix?, if_pos rfl, ih]

/-- A prefix is taken off a text that was built with it. -/
theorem stripPrefix?_append (pre text : String) :
    stripPrefix? pre (pre ++ text) = some (utf8 text) := by
  rw [stripPrefix?, utf8_append, dropPrefix?_append]

/-- Whether a pattern ends in `*`. -/
def endsWithStar (pattern : String) : Bool := pattern.toList.getLast? == some '*'

/-- `value.startsWith(pattern.slice(0, -1))`. -/
def startsWithStem (pattern value : String) : Bool :=
  pattern.toList.dropLast.isPrefixOf value.toList

/-- Whether a pattern, exact or a prefix ending in `*`, covers one concrete id. Delegation
scopes and tool definitions are matched by the same function. -/
def covers (pattern value : String) : Bool :=
  if endsWithStar pattern then startsWithStem pattern value else decide (pattern = value)

/-- Whether a child pattern is within a parent pattern. An exact parent covers only itself, a
wildcard parent anything under its prefix, and a wildcard child is never within an exact one. -/
def within (r p : String) : Bool :=
  if !endsWithStar p then !endsWithStar r && decide (r = p)
  else p.toList.dropLast.isPrefixOf (if endsWithStar r then r.toList.dropLast else r.toList)

/-- A parent pattern covers whatever a pattern within it covers. -/
theorem covers_of_within {r p value : String} (hw : within r p = true)
    (hc : covers r value = true) : covers p value = true := by
  unfold within at hw
  unfold covers at hc ⊢
  by_cases hp : endsWithStar p = true
  · simp only [hp, Bool.not_true, Bool.false_eq_true, if_false, if_true, startsWithStem,
      List.isPrefixOf_iff_prefix] at hw hc ⊢
    by_cases hr : endsWithStar r = true
    · simp only [hr, if_true, List.isPrefixOf_iff_prefix] at hw hc
      exact hw.trans hc
    · simp only [hr, Bool.false_eq_true, if_false, decide_eq_true_eq] at hw hc
      exact hc ▸ hw
  · simp only [hp, Bool.not_false, if_true, Bool.and_eq_true, Bool.not_eq_true',
      decide_eq_true_eq, Bool.false_eq_true, if_false] at hw hc ⊢
    obtain ⟨hr, rfl⟩ := hw
    simpa only [hr, Bool.false_eq_true, if_false, decide_eq_true_eq] using hc

end CoolSdk
