import CoolSdk.Core.StableSort
import CoolSdk.Wire.Codec
import CoolSdk.Wire.Types

/-!
# The host and the third-party packages

What the package calls and does not define: the runtime's date parser, Unicode
tables, regular expressions and sort, the `cbor2` codec and the cryptographic
primitives. Every function of the model takes them as one parameter. The laws some
results need are stated as separate predicates, so each theorem names what it uses.
-/

namespace CoolSdk

/-- The functions supplied by the runtime and by third-party packages. -/
structure Host where
  /-- `Date.parse`; `none` is `NaN`. -/
  dateParse : String → Option Int
  /-- `String(n)`. -/
  numberText : JsNumber → String
  /-- `String(value)` of a value that is not a text. -/
  textOf : JsValue → Except String String
  /-- `JSON.parse(JSON.stringify(value))`. -/
  jsonClone : JsValue → Except String JsValue
  /-- `a.localeCompare(b)`. -/
  localeCompare : String → String → JsNumber
  /-- `text.normalize("NFC")`. -/
  nfc : String → String
  /-- `new RegExp(pattern)`, then its `test`. -/
  regExp : String → Except String (String → Bool)
  /-- `Array.prototype.sort` with a comparator. -/
  sort : {α : Type} → (α → α → JsNumber) → List α → List α
  /-- `atob`, from the UTF-8 of its argument to the bytes of the decoded text. -/
  atob : Bytes → Except String Bytes
  sha256 : Bytes → Bytes
  /-- HMAC-SHA-256 of a message under a key, key first. -/
  hmacSha256 : Bytes → Bytes → Bytes
  /-- `cbor2` `encode` with deterministic (CDE) options. -/
  canonicalCbor : JsValue → Except String Bytes
  /-- `cbor2` `decode` with duplicate keys rejected. -/
  cborDecode : Bytes → Except String JsValue
  /-- The hybrid signature of a message. -/
  hybridSign : Bytes → KeyPair → SignatureBlock
  /-- Whether both halves of a hybrid signature verify over a message under an entry. -/
  hybridVerify : Bytes → SignatureBlock → DirectoryEntry → Bool

/-- What the package documents of its canonical encoder: on plain data it is a function of
the value up to the order of members, it separates values, and no encoding extends another. -/
structure CanonicalLaws (encode : JsValue → Except String Bytes) : Prop where
  /-- Member order does not reach the bytes. -/
  orderFree : ∀ v w, v.plain = true → w.plain = true → v.sortKeys = w.sortKeys →
    encode v = encode w
  /-- Equal encodings come from values equal up to member order. -/
  injective : ∀ v w b, v.plain = true → w.plain = true → encode v = .ok b → encode w = .ok b →
    v.sortKeys = w.sortKeys
  /-- No encoding is a proper prefix of another. -/
  prefixFree : ∀ v w a b, v.plain = true → w.plain = true → encode v = .ok a →
    encode w = .ok b → a <+: b → a = b

/-- What RFC 8949 makes of an object: a map, which starts with the head of one (major type 5)
and lists every key. -/
structure MapLaws (encode : JsValue → Except String Bytes) : Prop where
  head : ∀ ms b, encode (.object ms) = .ok b → ∃ c rest, b = c :: rest ∧ c.toNat / 32 = 5
  keys : ∀ ms b, encode (.object ms) = .ok b → (ms.map fun m => (utf8 m.1).length).sum ≤ b.length

/-- Two encodings that start two equal byte strings are equal. -/
theorem CanonicalLaws.append_inj {encode : JsValue → Except String Bytes}
    (h : CanonicalLaws encode) {v w : JsValue} {a b r s : Bytes} (hv : v.plain = true)
    (hw : w.plain = true) (ha : encode v = .ok a) (hb : encode w = .ok b)
    (he : a ++ r = b ++ s) : a = b ∧ r = s := by
  have hab : a = b := by
    rcases List.append_eq_append_iff.mp he with ⟨c, hc, _⟩ | ⟨c, hc, _⟩
    · exact h.prefixFree v w a b hv hw ha hb ⟨c, hc.symm⟩
    · exact (h.prefixFree w v b a hw hv hb ha ⟨c, hc.symm⟩).symm
  subst hab
  exact ⟨rfl, List.append_cancel_left he⟩

/-- What ECMAScript promises of `sort`: the result lists the same elements, and when the
comparator is consistent on them, no element precedes one it compares above. -/
structure SortLaws (H : Host) : Prop where
  perm : ∀ {α : Type} (cmp : α → α → JsNumber) (l : List α), (H.sort cmp l).Perm l
  sorted : ∀ {α : Type} (cmp : α → α → JsNumber) (key : α → Int) (l : List α),
    (∀ a ∈ l, ∀ b ∈ l, cmp a b = .sub (.ofInt (key a)) (.ofInt (key b))) →
    (H.sort cmp l).Pairwise fun a b => key a ≤ key b

/-- ECMAScript also promises that `sort` is stable: elements that a consistent comparator does
not tell apart keep their order. -/
structure StableSort (H : Host) : Prop extends SortLaws H where
  stable : ∀ {α : Type} (cmp : α → α → JsNumber) (key : α → Int) (l : List α),
    (∀ a ∈ l, ∀ b ∈ l, cmp a b = .sub (.ofInt (key a)) (.ofInt (key b))) → ∀ t,
    ((H.sort cmp l).filter fun a => key a = t) = l.filter fun a => key a = t

/-- Both promises for a comparator that tells elements apart by an ordered key. -/
structure KeyedSort (H : Host) : Prop where
  stably : ∀ {α κ : Type} [LinearOrder κ] (cmp : α → α → JsNumber) (key : α → κ) (l : List α),
    (∀ a ∈ l, ∀ b ∈ l, ((cmp a b).lt (.ofInt 0) = true ↔ key a < key b) ∧
      (JsNumber.lt (.ofInt 0) (cmp a b) = true ↔ key b < key a)) →
    StablySorted key l (H.sort cmp l)

section

variable (H : Host)

/-- `Date.parse(text)` as a number. -/
def dateNumber (text : String) : JsNumber := .ofParsed (H.dateParse text)

/-- The prefix of a SHA-256 multihash. -/
def multihashPrefix : String := "mh:sha256:"

/-- The SHA-256 multihash of the given bytes. -/
def mhSha256 (data : Bytes) : Multihash := multihashPrefix ++ toHex (H.sha256 data)

/-- Wrap an already computed 32-byte digest. -/
def multihashFromDigest (digest : Bytes) : Except String Multihash :=
  if digest.length ≠ 32 then
    .error ("sha256 digest must be 32 bytes, got " ++ toString digest.length)
  else .ok (multihashPrefix ++ toHex digest)

/-- The raw digest of a multihash. -/
def multihashDigest (mh : Multihash) : Except String Bytes :=
  match stripPrefix? multihashPrefix mh with
  | none => .error ("expected '" ++ multihashPrefix ++ "' prefix")
  | some hex => do
    let digest ← fromHexUtf8 hex
    if digest.length ≠ 32 then
      throw ("sha256 digest must be 32 bytes, got " ++ toString digest.length)
    return digest

/-- Whether a text is `mh:sha256:` followed by 64 lowercase hex digits. -/
def isMultihash (value : String) : Bool :=
  match stripPrefix? multihashPrefix value with
  | none => false
  | some hex => decide (hex.length = 64) &&
      hex.all fun c => decide (48 ≤ c ∧ c ≤ 57) || decide (97 ≤ c ∧ c ≤ 102)

/-- Decode a `base64:<b64>` field. -/
def fromBase64Field (field : String) : Except String Bytes :=
  match stripPrefix? "base64:" field with
  | none => .error "expected 'base64:' prefix"
  | some b64 => H.atob b64

/-- The digest of a multihash made from 32 bytes is those bytes. -/
theorem multihashDigest_toHex {digest : Bytes} (h : digest.length = 32) :
    multihashDigest (multihashPrefix ++ toHex digest) = .ok digest := by
  have hhex : fromHexUtf8 (utf8 (toHex digest)) = .ok digest := fromHex_toHex digest
  simp only [multihashDigest, stripPrefix?_append, hhex]
  exact if_neg (by simp [h])

/-- A text in the form of a multihash has a digest. -/
theorem multihashDigest_of_isMultihash {value : String} (h : isMultihash value = true) :
    ∃ digest, multihashDigest value = .ok digest := by
  unfold isMultihash at h
  unfold multihashDigest
  split at h
  · cases h
  · rename_i hex hstrip
    rw [Bool.and_eq_true, decide_eq_true_eq, List.all_eq_true] at h
    obtain ⟨hlength, hdigits⟩ := h
    simp only [Bool.or_eq_true, decide_eq_true_eq] at hdigits
    obtain ⟨digest, hpairs⟩ := exists_hexPairs (by omega) hdigits
    have htwice := length_hexPairs hpairs
    have hdecoded : fromHexUtf8 hex = .ok digest := by rw [fromHexUtf8, hpairs]
    simp only [hdecoded]
    exact ⟨digest, if_neg (by omega)⟩

/-- The digest read back from a computed multihash is the hash, which is then 32 bytes long. -/
theorem digest_of_mhSha256 {data digest : Bytes}
    (h : multihashDigest (mhSha256 H data) = .ok digest) :
    digest = H.sha256 data ∧ digest.length = 32 := by
  have hhex : fromHexUtf8 (utf8 (toHex (H.sha256 data))) = .ok (H.sha256 data) :=
    fromHex_toHex (H.sha256 data)
  have hread : multihashDigest (mhSha256 H data) =
      if (H.sha256 data).length ≠ 32 then
        .error ("sha256 digest must be 32 bytes, got " ++ toString (H.sha256 data).length)
      else .ok (H.sha256 data) := by
    simp only [multihashDigest, mhSha256, stripPrefix?_append, hhex]
    by_cases hl : (H.sha256 data).length ≠ 32
    · rw [if_pos hl]
      exact if_pos hl
    · rw [if_neg hl]
      exact if_neg hl
  rw [hread] at h
  by_cases hl : (H.sha256 data).length ≠ 32
  · rw [if_pos hl] at h
    cases h
  · rw [if_neg hl] at h
    cases h
    exact ⟨rfl, not_not.mp hl⟩

theorem multihashPrefix_toHex_injective {a b : Bytes}
    (h : multihashPrefix ++ toHex a = multihashPrefix ++ toHex b) : a = b := by
  apply toHex_injective
  have hl := congrArg String.toList h
  simp only [String.toList_append, List.append_cancel_left_eq] at hl
  exact String.toList_inj.mp hl

/-- Equal multihashes carry equal digests. -/
theorem mhSha256_eq_iff (a b : Bytes) : mhSha256 H a = mhSha256 H b ↔ H.sha256 a = H.sha256 b :=
  ⟨multihashPrefix_toHex_injective, fun h => congrArg (fun d => multihashPrefix ++ toHex d) h⟩

end

end CoolSdk
