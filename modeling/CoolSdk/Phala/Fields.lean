import CoolSdk.Phala.Verify

/-!
# Texts in the form the schema demands

The prefixed text fields of a receipt, and that what is computed from bytes has the form the
structural check asks for.
-/

namespace CoolSdk

/-- Encode bytes as a `hex:` field. -/
def toHexField (bytes : Bytes) : String := "hex:" ++ toHex bytes

/-- Decode a `hex:` field. -/
def fromHexField (field : String) : Except String Bytes :=
  match stripPrefix? "hex:" field with
  | none => .error "expected 'hex:' prefix"
  | some hex => fromHexUtf8 hex

/-- Encode bytes as a `base64:` field. -/
def toBase64Field (bytes : Bytes) : String := "base64:" ++ toBase64 bytes

private theorem all_isHexChar (bytes : Bytes) : (utf8 (toHex bytes)).all isHexChar = true :=
  (utf8_toHex bytes).2

/-- Some bytes make a hex field. -/
theorem test_toHexField {bytes : Bytes} (h : bytes ≠ []) :
    HEX_FIELD.test (toHexField bytes) = true := by
  have hlength : (utf8 (toHex bytes)).length ≠ 0 := by
    rw [(utf8_toHex bytes).1]
    have := List.length_pos_of_ne_nil h
    omega
  have hne : (utf8 (toHex bytes)).isEmpty = false := by
    rw [List.isEmpty_eq_false_iff]
    exact fun he => hlength (by rw [he]; rfl)
  simp only [HEX_FIELD, toHexField, stripPrefix?_append, Option.any_some, hne, all_isHexChar,
    Bool.not_false, Bool.and_self]

/-- A digest of 32 bytes makes a multihash. -/
theorem isMultihash_toHex {digest : Bytes} (h : digest.length = 32) :
    isMultihash (multihashPrefix ++ toHex digest) = true := by
  have hlength : (utf8 (toHex digest)).length = 64 := by rw [(utf8_toHex _).1, h]
  simp only [isMultihash, stripPrefix?_append, hlength, decide_true, Bool.true_and]
  exact all_isHexChar _

/-- A wrapped digest is a multihash. -/
theorem isMultihash_of_fromDigest {digest : Bytes} {mh : Multihash}
    (h : multihashFromDigest digest = .ok mh) : isMultihash mh = true := by
  unfold multihashFromDigest at h
  split at h
  · cases h
  · rename_i hlength
    cases h
    exact isMultihash_toHex (not_not.mp hlength)

/-- A digest of 48 bytes makes a measurement register. -/
theorem isRegister_toHexField {bytes : Bytes} (h : bytes.length = 48) :
    isRegister (toHexField bytes) = true := by
  have hlength : (utf8 (toHex bytes)).length = 96 := by rw [(utf8_toHex _).1, h]
  simp only [isRegister, toHexField, stripPrefix?_append, Option.any_some, hlength, decide_true,
    Bool.true_or, Bool.true_and, all_isHexChar]

/-! ## Base64 -/

private theorem base64Digit_spec :
    ∀ n < 64, (String.utf8EncodeChar (base64Digit n)).map isBase64Char = [true] := by
  decide

private theorem isBase64Text_digit {n : Nat} (h : n < 64) (cs : List Char) :
    isBase64Text ((base64Digit n :: cs).flatMap String.utf8EncodeChar) =
      isBase64Text (cs.flatMap String.utf8EncodeChar) := by
  obtain ⟨c, hc, hdigit⟩ := List.map_eq_singleton_iff.mp (base64Digit_spec n h)
  rw [List.flatMap_cons, hc, List.singleton_append, isBase64Text, isBase64Text,
    List.dropWhile_cons_of_pos hdigit]

private theorem isBase64Text_digits (bytes : Bytes) :
    isBase64Text ((base64Digits bytes).flatMap String.utf8EncodeChar) = true := by
  induction bytes using base64Digits.induct with
  | case1 => rfl
  | case2 a =>
    have ha := a.toNat_lt
    rw [base64Digits, isBase64Text_digit (by omega), isBase64Text_digit (by omega)]
    decide
  | case3 a b =>
    have ha := a.toNat_lt
    have hb := b.toNat_lt
    rw [base64Digits, isBase64Text_digit (by omega), isBase64Text_digit (by omega),
      isBase64Text_digit (by omega)]
    decide
  | case4 a b c rest ih =>
    have ha := a.toNat_lt
    have hb := b.toNat_lt
    have hc := c.toNat_lt
    rw [base64Digits, isBase64Text_digit (by omega), isBase64Text_digit (by omega),
      isBase64Text_digit (by omega), isBase64Text_digit (by omega), ih]

/-- Any bytes make a base64 field. -/
theorem test_toBase64Field (bytes : Bytes) : B64_FIELD.test (toBase64Field bytes) = true := by
  simp only [B64_FIELD, toBase64Field, stripPrefix?_append, Option.any_some, toBase64, utf8_ofList,
    isBase64Text_digits]

end CoolSdk
