import CoolSdk.Core.Cbor
import CoolSdk.Runtime.Date
import CoolSdk.Runtime.Host

/-!
# A reference host

One concrete choice of the host's functions, so that the verifiers can be run on
inputs. The encoder is deterministic CBOR with sorted keys and satisfies the laws of
the canonical encoder, and its sort those of `sort`. Dates are parsed in the form
`toISOString` writes. The digest and the signature are stand-ins: a digest of the right
length that separates the inputs it is used on, and a signature that verifies under
exactly the entry that made it, over exactly its message.
-/

namespace CoolSdk.Reference

/-! ## Encoding -/

mutual

/-- The CBOR item of a value; only integral numbers and plain data have one. -/
def toItem : JsValue → Option Cbor.Item
  | .undefined => some (.simple 23)
  | .null => some (.simple 22)
  | .bool b => some (.simple (if b then 21 else 20))
  | .num (.finite q) =>
    if q.den = 1 then
      some (if 0 ≤ q.num then .unsigned q.num.toNat else .negative (-1 - q.num).toNat)
    else none
  | .num _ => none
  | .str s => some (.text (utf8 s))
  | .bytes b => some (.bytes b)
  | .array xs => (toItems xs).map .array
  | .object ms => (toEntries ms).map .map
  | .custom _ | .foreign _ => none

def toItems : List JsValue → Option (List Cbor.Item)
  | [] => some []
  | x :: xs =>
    (toItem x).bind fun i => (toItems xs).map fun is => i :: is

def toEntries : JsValue.Members → Option (List (List UInt8 × Cbor.Item))
  | [] => some []
  | (k, v) :: ms =>
    (toItem v).bind fun i => (toEntries ms).map fun es => (utf8 k, i) :: es

end

/-- The deterministic encoding of a value. -/
def canonicalCbor (v : JsValue) : Except String Bytes :=
  match toItem v.sortKeys with
  | none => .error "unsupported value"
  | some i => if Cbor.valid i then .ok (Cbor.encode i) else .error "value too large"

/-- The item of an integer. -/
private def integer (z : Int) : Cbor.Item :=
  if 0 ≤ z then .unsigned z.toNat else .negative (-1 - z).toNat

private theorem integer_inj {z y : Int} (h : integer z = integer y) : z = y := by
  unfold integer at h
  split_ifs at h <;> simp only [Cbor.Item.unsigned.injEq, Cbor.Item.negative.injEq]
    at h <;> omega

private theorem toItem_num {n : JsNumber} {i : Cbor.Item} (h : toItem (.num n) = some i) :
    ∃ q : ℚ, n = .finite q ∧ q.den = 1 ∧ i = integer q.num := by
  cases n with
  | finite q =>
    by_cases hq : q.den = 1
    · simp only [toItem, hq, if_true, Option.some.injEq] at h
      exact ⟨q, rfl, hq, h.symm⟩
    · simp only [toItem, hq, if_false, reduceCtorEq] at h
  | _ => cases h

private theorem major_of_num {n : JsNumber} {i : Cbor.Item} (h : toItem (.num n) = some i) :
    Cbor.major i = 0 ∨ Cbor.major i = 1 := by
  obtain ⟨q, _, _, rfl⟩ := toItem_num h
  unfold integer
  split
  · exact Or.inl rfl
  · exact Or.inr rfl

private theorem toItem_simple {v : JsValue} {n : Nat} (h : toItem v = some (.simple n)) :
    v = .undefined ∧ n = 23 ∨ v = .null ∧ n = 22 ∨ ∃ b, v = .bool b ∧ n = if b then 21 else 20 := by
  cases v with
  | num m => rcases major_of_num h with h | h <;> cases h
  | _ => simp_all [toItem, eq_comm]

private theorem toItem_integer {v : JsValue} {z : Int} (h : toItem v = some (integer z)) :
    ∃ q : ℚ, v = .num (.finite q) ∧ q.den = 1 ∧ q.num = z := by
  cases v with
  | num m =>
    obtain ⟨q, rfl, hq, hi⟩ := toItem_num h
    exact ⟨q, rfl, hq, (integer_inj hi).symm⟩
  | _ =>
    unfold integer at h
    split at h <;> simp [toItem] at h

mutual

/-- A value is determined by its item. -/
theorem toItem_inj {v w : JsValue} {i : Cbor.Item} (hv : toItem v = some i)
    (hw : toItem w = some i) : v = w := by
  match v with
  | .undefined =>
    cases hv
    rcases toItem_simple hw with ⟨rfl, _⟩ | ⟨_, h⟩ | ⟨b, _, h⟩
    · rfl
    · cases h
    · cases b <;> cases h
  | .null =>
    cases hv
    rcases toItem_simple hw with ⟨_, h⟩ | ⟨rfl, _⟩ | ⟨b, _, h⟩
    · cases h
    · rfl
    · cases b <;> cases h
  | .bool a =>
    simp only [toItem, Option.some.injEq] at hv
    subst hv
    rcases toItem_simple hw with ⟨_, h⟩ | ⟨_, h⟩ | ⟨b, rfl, h⟩
    · cases a <;> cases h
    · cases a <;> cases h
    · cases a <;> cases b <;> first | rfl | cases h
  | .num n =>
    obtain ⟨q, rfl, hq, rfl⟩ := toItem_num hv
    obtain ⟨r, rfl, hr, hz⟩ := toItem_integer hw
    rw [Rat.ext hz.symm (hq.trans hr.symm)]
  | .str s =>
    cases hv
    cases w with
    | num m => rcases major_of_num hw with h | h <;> cases h
    | str t =>
      simp only [toItem, Option.some.injEq, Cbor.Item.text.injEq] at hw
      rw [utf8_injective hw]
    | _ => simp [toItem] at hw
  | .bytes b =>
    cases hv
    cases w with
    | num m => rcases major_of_num hw with h | h <;> cases h
    | bytes t =>
      simp only [toItem, Option.some.injEq, Cbor.Item.bytes.injEq] at hw
      rw [hw]
    | _ => simp [toItem] at hw
  | .array xs =>
    simp only [toItem, Option.map_eq_some_iff] at hv
    obtain ⟨is, hx, rfl⟩ := hv
    cases w with
    | num m => rcases major_of_num hw with h | h <;> cases h
    | array ys =>
      simp only [toItem, Option.map_eq_some_iff, Cbor.Item.array.injEq, exists_eq_right] at hw
      rw [toItems_inj hx hw]
    | _ => simp [toItem] at hw
  | .object ms =>
    simp only [toItem, Option.map_eq_some_iff] at hv
    obtain ⟨es, hm, rfl⟩ := hv
    cases w with
    | num m => rcases major_of_num hw with h | h <;> cases h
    | object ns =>
      simp only [toItem, Option.map_eq_some_iff, Cbor.Item.map.injEq, exists_eq_right] at hw
      rw [toEntries_inj hm hw]
    | _ => simp [toItem] at hw

theorem toItems_inj {xs ys : List JsValue} {is : List Cbor.Item} (hx : toItems xs = some is)
    (hy : toItems ys = some is) : xs = ys := by
  match xs, ys with
  | [], [] => rfl
  | [], y :: ys =>
    cases hx
    simp only [toItems, Option.bind_eq_some_iff, Option.map_eq_some_iff, reduceCtorEq,
      and_false, exists_false] at hy
  | x :: xs, [] =>
    cases hy
    simp only [toItems, Option.bind_eq_some_iff, Option.map_eq_some_iff, reduceCtorEq,
      and_false, exists_false] at hx
  | x :: xs, y :: ys =>
    simp only [toItems, Option.bind_eq_some_iff, Option.map_eq_some_iff] at hx hy
    obtain ⟨i, hxi, is', hxs, rfl⟩ := hx
    obtain ⟨j, hyj, js, hys, he⟩ := hy
    obtain ⟨rfl, rfl⟩ := List.cons.inj he
    rw [toItem_inj hxi hyj, toItems_inj hxs hys]

theorem toEntries_inj {ms ns : JsValue.Members} {es : List (List UInt8 × Cbor.Item)}
    (hm : toEntries ms = some es) (hn : toEntries ns = some es) : ms = ns := by
  match ms, ns with
  | [], [] => rfl
  | [], (k, w) :: ns =>
    cases hm
    simp only [toEntries, Option.bind_eq_some_iff, Option.map_eq_some_iff, reduceCtorEq,
      and_false, exists_false] at hn
  | (k, v) :: ms, [] =>
    cases hn
    simp only [toEntries, Option.bind_eq_some_iff, Option.map_eq_some_iff, reduceCtorEq,
      and_false, exists_false] at hm
  | (k, v) :: ms, (l, w) :: ns =>
    simp only [toEntries, Option.bind_eq_some_iff, Option.map_eq_some_iff] at hm hn
    obtain ⟨i, hvi, es', hms, rfl⟩ := hm
    obtain ⟨j, hwj, fs, hns, he⟩ := hn
    obtain ⟨hkl, rfl⟩ := List.cons.inj he
    obtain ⟨hk, rfl⟩ := Prod.mk.inj hkl
    rw [toItem_inj hvi hwj, toEntries_inj hms hns, utf8_injective hk]

end

/-- An encoding is that of a valid item of the value with its keys sorted. -/
theorem item_of_canonicalCbor {v : JsValue} {b : Bytes} (h : canonicalCbor v = .ok b) :
    ∃ i, toItem v.sortKeys = some i ∧ Cbor.valid i = true ∧ b = Cbor.encode i := by
  unfold canonicalCbor at h
  cases hi : toItem v.sortKeys with
  | none => simp only [hi, reduceCtorEq] at h
  | some i =>
    by_cases hval : Cbor.valid i = true
    · simp only [hi, hval, if_true, Except.ok.injEq] at h
      exact ⟨i, rfl, hval, h.symm⟩
    · simp only [hi, hval, Bool.false_eq_true, if_false, reduceCtorEq] at h

/-- The encoder satisfies the laws the package documents. -/
theorem canonicalLaws : CanonicalLaws canonicalCbor where
  orderFree v w _ _ h := by
    unfold canonicalCbor
    rw [h]
  injective v w b _ _ hv hw := by
    obtain ⟨i, hi, hvi, rfl⟩ := item_of_canonicalCbor hv
    obtain ⟨j, hj, hvj, he⟩ := item_of_canonicalCbor hw
    have hij : i = j := (Cbor.encode_append_inj (r := []) (s := []) hvi hvj (by rw [he])).1
    subst hij
    exact toItem_inj hi hj
  prefixFree v w a b _ _ hv hw hab := by
    obtain ⟨i, hi, hvi, rfl⟩ := item_of_canonicalCbor hv
    obtain ⟨j, hj, hvj, rfl⟩ := item_of_canonicalCbor hw
    obtain ⟨r, hr⟩ := hab
    have hij : i = j := (Cbor.encode_append_inj (s := []) hvi hvj (by rw [hr, List.append_nil])).1
    rw [hij]

private theorem keys_toEntries {ms : JsValue.Members} {es : List (List UInt8 × Cbor.Item)}
    (h : toEntries ms = some es) : es.map Prod.fst = ms.map fun m => utf8 m.1 := by
  induction ms generalizing es with
  | nil =>
    cases h
    rfl
  | cons m ms ih =>
    obtain ⟨k, v⟩ := m
    simp only [toEntries, Option.bind_eq_some_iff, Option.map_eq_some_iff] at h
    obtain ⟨i, _, es', hes, rfl⟩ := h
    rw [List.map_cons, List.map_cons, ih hes]

/-- It encodes objects as maps. -/
theorem mapLaws : MapLaws canonicalCbor where
  head ms b h := by
    obtain ⟨i, hi, _, rfl⟩ := item_of_canonicalCbor h
    obtain ⟨es, _, rfl⟩ := Option.map_eq_some_iff.mp hi
    exact Cbor.encode_map_head es
  keys ms b h := by
    obtain ⟨i, hi, _, rfl⟩ := item_of_canonicalCbor h
    obtain ⟨es, hes, rfl⟩ := Option.map_eq_some_iff.mp hi
    have hkeys := congrArg (fun l => (l.map List.length).sum) (keys_toEntries hes)
    simp only [List.map_map] at hkeys
    have hperm := List.perm_insertionSort JsValue.memberLe (JsValue.sortKeysMembers ms)
    have hsorted := (hperm.map fun m => (utf8 m.1).length).sum_nat
    rw [JsValue.sortKeysMembers_eq_map, List.map_map] at hsorted
    calc (ms.map fun m => (utf8 m.1).length).sum
        = ((JsValue.sortMembers (JsValue.sortKeysMembers ms)).map
            fun m => (utf8 m.1).length).sum := by
          rw [JsValue.sortKeysMembers_eq_map]
          exact hsorted.symm
      _ = (es.map fun e => e.1.length).sum := hkeys.symm
      _ ≤ (Cbor.encode (.map es)).length := Cbor.sum_keys_le_encode_map es

/-! ## Decoding -/

/-- A big-endian number. -/
def readBigEndian (b : Bytes) : Nat := b.foldl (fun acc x => 256 * acc + x.toNat) 0

/-- The major type, the argument and what follows a head. -/
def readHead : Bytes → Option (Nat × Nat × Bytes)
  | [] => none
  | b :: rest =>
    let info := b.toNat % 32
    if info < 24 then some (b.toNat / 32, info, rest)
    else if info < 28 then
      let width := 2 ^ (info - 24)
      some (b.toNat / 32, readBigEndian (rest.take width), rest.drop width)
    else none

/-- The text of UTF-8 bytes. -/
def readText (b : Bytes) : Option String := String.fromUTF8? ⟨b.toArray⟩

theorem readText_utf8 (s : String) : readText (utf8 s) = some s := by
  have hbytes : (⟨(utf8 s).toArray⟩ : ByteArray) = s.toByteArray := by
    rw [utf8]
  rw [readText, hbytes, String.fromUTF8?, dif_pos s.isValidUTF8]
  rfl

mutual

/-- Read one value; the fuel bounds the number of items. -/
def readValue : Nat → Bytes → Option (JsValue × Bytes)
  | 0, _ => none
  | fuel + 1, b =>
    match readHead b with
    | some (0, n, rest) => some (.num (.ofInt n), rest)
    | some (1, n, rest) => some (.num (.ofInt (-1 - n)), rest)
    | some (2, n, rest) => some (.bytes (rest.take n), rest.drop n)
    | some (3, n, rest) => (readText (rest.take n)).map fun s => (.str s, rest.drop n)
    | some (4, n, rest) => (readItems fuel n rest).map fun p => (.array p.1, p.2)
    | some (5, n, rest) => (readMembers fuel n rest).map fun p => (.object p.1, p.2)
    | some (7, 20, rest) => some (.bool false, rest)
    | some (7, 21, rest) => some (.bool true, rest)
    | some (7, 22, rest) => some (.null, rest)
    | some (7, 23, rest) => some (.undefined, rest)
    | _ => none

def readItems : Nat → Nat → Bytes → Option (List JsValue × Bytes)
  | 0, _, _ => none
  | _ + 1, 0, b => some ([], b)
  | fuel + 1, n + 1, b =>
    (readValue fuel b).bind fun p => (readItems fuel n p.2).map fun q => (p.1 :: q.1, q.2)

def readMembers : Nat → Nat → Bytes → Option (JsValue.Members × Bytes)
  | 0, _, _ => none
  | _ + 1, 0, b => some ([], b)
  | fuel + 1, n + 1, b =>
    (readValue fuel b).bind fun k =>
      match k.1 with
      | .str name => (readValue fuel k.2).bind fun v =>
        (readMembers fuel n v.2).map fun q => ((name, v.1) :: q.1, q.2)
      | _ => none

end

/-- Decode one value that takes up all the bytes. -/
def cborDecode (b : Bytes) : Except String JsValue :=
  match readValue (2 * b.length + 2) b with
  | some (v, []) => .ok v
  | _ => .error "malformed CBOR"

/-! ## Text, dates, digests and signatures -/

/-- The value of a base64 digit. -/
def base64Value? (c : UInt8) : Option Nat :=
  let n := c.toNat
  if 65 ≤ n ∧ n ≤ 90 then some (n - 65)
  else if 97 ≤ n ∧ n ≤ 122 then some (n - 71)
  else if 48 ≤ n ∧ n ≤ 57 then some (n + 4)
  else if n = 43 then some 62 else if n = 47 then some 63 else none

/-- `atob` on padded base64; 61 is the padding character. -/
def base64Bytes : Bytes → Option Bytes
  | [] => some []
  | [a, b, 61, 61] => do
    let x ← base64Value? a
    let y ← base64Value? b
    some (Cbor.bigEndian 1 ((64 * x + y) / 16))
  | [a, b, c, 61] => do
    let x ← base64Value? a
    let y ← base64Value? b
    let z ← base64Value? c
    some (Cbor.bigEndian 2 ((64 * (64 * x + y) + z) / 4))
  | a :: b :: c :: d :: rest => do
    let x ← base64Value? a
    let y ← base64Value? b
    let z ← base64Value? c
    let w ← base64Value? d
    let out ← base64Bytes rest
    some (Cbor.bigEndian 3 (64 * (64 * (64 * x + y) + z) + w) ++ out)
  | _ => none

/-- `atob`, throwing on anything else. -/
def atob (text : Bytes) : Except String Bytes :=
  match base64Bytes text with
  | some b => .ok b
  | none => .error "The string to be decoded is not correctly encoded."

private theorem base64Digit_spec : ∀ n < 64, (String.utf8EncodeChar (base64Digit n)).map
    (fun c => (base64Value? c, decide (c = 61))) = [(some n, false)] := by
  decide

private theorem utf8_base64Digit {n : Nat} (h : n < 64) :
    ∃ c, String.utf8EncodeChar (base64Digit n) = [c] ∧ base64Value? c = some n ∧ c ≠ 61 := by
  obtain ⟨c, hc, hvalue⟩ := List.map_eq_singleton_iff.mp (base64Digit_spec n h)
  rw [Prod.mk.injEq, decide_eq_false_iff_not] at hvalue
  exact ⟨c, hc, hvalue⟩

private theorem utf8_padding : String.utf8EncodeChar '=' = [61] := by decide

private theorem bigEndian_bytes (a b c : UInt8) : Cbor.bigEndian 1 a.toNat = [a] ∧
    Cbor.bigEndian 2 (256 * a.toNat + b.toNat) = [a, b] ∧
    Cbor.bigEndian 3 (256 * (256 * a.toNat + b.toNat) + c.toNat) = [a, b, c] := by
  have ha := a.toNat_lt
  have hb := b.toNat_lt
  have hc := c.toNat_lt
  have hone : a.toNat % 256 = a.toNat := by omega
  have htwo : (256 * a.toNat + b.toNat) / 256 = a.toNat ∧
      (256 * a.toNat + b.toNat) % 256 = b.toNat := by omega
  have hthree : (256 * (256 * a.toNat + b.toNat) + c.toNat) / 256 = 256 * a.toNat + b.toNat ∧
      (256 * (256 * a.toNat + b.toNat) + c.toNat) % 256 = c.toNat := by omega
  simp only [Cbor.bigEndian, hone, htwo.1, htwo.2, hthree.1, hthree.2, UInt8.ofNat_toNat,
    List.nil_append, List.cons_append]
  exact ⟨trivial, trivial, trivial⟩

private theorem base64Bytes_digits (bytes : Bytes) :
    base64Bytes ((base64Digits bytes).flatMap String.utf8EncodeChar) = some bytes := by
  induction bytes using base64Digits.induct with
  | case1 => rfl
  | case2 a =>
    have ha := a.toNat_lt
    obtain ⟨x, hx, hxv, _⟩ := utf8_base64Digit (n := 16 * a.toNat / 64) (by omega)
    obtain ⟨y, hy, hyv, _⟩ := utf8_base64Digit (n := 16 * a.toNat % 64) (by omega)
    have hsum : (64 * (16 * a.toNat / 64) + 16 * a.toNat % 64) / 16 = a.toNat := by omega
    simp only [base64Digits, List.flatMap_cons, List.flatMap_nil, hx, hy, utf8_padding,
      List.cons_append, List.nil_append]
    rw [base64Bytes.eq_2, hxv, hyv]
    simp only [Option.bind_eq_bind, Option.bind_some, hsum, (bigEndian_bytes a a a).1]
  | case3 a b =>
    have ha := a.toNat_lt
    have hb := b.toNat_lt
    obtain ⟨x, hx, hxv, _⟩ := utf8_base64Digit (n := 4 * (256 * a.toNat + b.toNat) / 4096)
      (by omega)
    obtain ⟨y, hy, hyv, _⟩ := utf8_base64Digit (n := 4 * (256 * a.toNat + b.toNat) / 64 % 64)
      (by omega)
    obtain ⟨z, hz, hzv, hne⟩ := utf8_base64Digit (n := 4 * (256 * a.toNat + b.toNat) % 64)
      (by omega)
    have hsum : (64 * (64 * (4 * (256 * a.toNat + b.toNat) / 4096) +
        4 * (256 * a.toNat + b.toNat) / 64 % 64) + 4 * (256 * a.toNat + b.toNat) % 64) / 4 =
        256 * a.toNat + b.toNat := by omega
    simp only [base64Digits, List.flatMap_cons, List.flatMap_nil, hx, hy, hz, utf8_padding,
      List.cons_append, List.nil_append]
    rw [base64Bytes.eq_3 _ _ _ hne, hxv, hyv, hzv]
    simp only [Option.bind_eq_bind, Option.bind_some, hsum, (bigEndian_bytes a b a).2.1]
  | case4 a b c rest ih =>
    have ha := a.toNat_lt
    have hb := b.toNat_lt
    have hc := c.toNat_lt
    generalize hn : 256 * (256 * a.toNat + b.toNat) + c.toNat = n
    obtain ⟨x, hx, hxv, _⟩ := utf8_base64Digit (n := n / 262144) (by omega)
    obtain ⟨y, hy, hyv, _⟩ := utf8_base64Digit (n := n / 4096 % 64) (by omega)
    obtain ⟨z, hz, hzv, _⟩ := utf8_base64Digit (n := n / 64 % 64) (by omega)
    obtain ⟨w, hw, hwv, hne⟩ := utf8_base64Digit (n := n % 64) (by omega)
    have hsum : 64 * (64 * (64 * (n / 262144) + n / 4096 % 64) + n / 64 % 64) + n % 64 = n := by
      omega
    simp only [base64Digits, hn, List.flatMap_cons, hx, hy, hz, hw, List.cons_append,
      List.nil_append]
    rw [base64Bytes.eq_4 _ _ _ _ _ (fun _ h => absurd h hne) (fun h => absurd h hne), hxv, hyv,
      hzv, hwv, ih]
    have hbytes := (bigEndian_bytes a b c).2.2
    rw [hn] at hbytes
    simp only [Option.bind_eq_bind, Option.bind_some, hsum, hbytes, List.cons_append,
      List.nil_append]

/-- Base64 is read back as the bytes it was written from. -/
theorem atob_toBase64 (bytes : Bytes) : atob (utf8 (toBase64 bytes)) = .ok bytes := by
  rw [atob, toBase64, utf8_ofList, base64Bytes_digits]

/-- Compose `e` with a following acute accent; every other text is composed already. -/
def composeAcute : List Char → List Char
  | 'e' :: '\u0301' :: rest => 'é' :: composeAcute rest
  | c :: rest => c :: composeAcute rest
  | [] => []

/-- The day number of a calendar date, counted from 1970-01-01. -/
def daysOfCivil (year : Int) (month day : Nat) : Int :=
  let y := if month ≤ 2 then year - 1 else year
  let era := y / 400
  let yoe := y % 400
  let doy : Int := (153 * (if 2 < month then month - 3 else month + 9) + 2) / 5 + day - 1
  era * 146097 + (yoe * 365 + yoe / 4 - yoe / 100 + doy) - 719468

/-- A number from decimal digits. -/
def readDigits (cs : Bytes) : Option Nat :=
  cs.foldl (fun acc c => acc.bind fun n =>
    if 48 ≤ c.toNat ∧ c.toNat ≤ 57 then some (10 * n + (c.toNat - 48)) else none) (some 0)

/-- Milliseconds of a date in the form `toISOString` writes; 45, 84, 58, 46 and 90 are the
characters `-`, `T`, `:`, `.` and `Z`. -/
def dateParse (text : String) : Option Int :=
  match utf8 text with
  | [y₁, y₂, y₃, y₄, 45, m₁, m₂, 45, d₁, d₂, 84, h₁, h₂, 58, n₁, n₂, 58, s₁, s₂, 46,
      u₁, u₂, u₃, 90] => do
    let year ← readDigits [y₁, y₂, y₃, y₄]
    let month ← readDigits [m₁, m₂]
    let day ← readDigits [d₁, d₂]
    let hour ← readDigits [h₁, h₂]
    let minute ← readDigits [n₁, n₂]
    let second ← readDigits [s₁, s₂]
    let ms ← readDigits [u₁, u₂, u₃]
    if 1 ≤ month ∧ month ≤ 12 ∧ 1 ≤ day ∧ day ≤ 31 ∧ hour < 24 ∧ minute < 60 ∧ second < 60 then
      some (daysOfCivil year month day * 86400000 +
        (((hour * 60 + minute) * 60 + second) * 1000 + ms : Nat))
    else none
  | _ => none

/-- A number's decimal text; only integers are printed in full. -/
def numberText : JsNumber → String
  | .nan => "NaN"
  | .negInfinity => "-Infinity"
  | .negZero => "0"
  | .finite q => toString q.num
  | .infinity => "Infinity"

/-- A pattern without special characters matches where it occurs. -/
def literalPattern (pattern : String) : Except String (String → Bool) :=
  .ok fun text => text.toList.tails.any fun t => pattern.toList.isPrefixOf t

/-- A digest of 32 bytes. -/
def digest (data : Bytes) : Bytes :=
  Cbor.bigEndian 32 (data.foldl (fun acc b => 257 * acc + b.toNat + 1) data.length)

theorem length_digest (data : Bytes) : (digest data).length = 32 := Cbor.length_bigEndian 32 _

/-- A keyed digest of 32 bytes. -/
def keyedDigest (key data : Bytes) : Bytes := digest (Cbor.bigEndian 8 key.length ++ key ++ data)

/-- The signature of a message under the key with the given public half. -/
def signatureText (publicKey : String) (message : Bytes) : String :=
  publicKey ++ "." ++ toHex (digest message)

/-- Sign with both halves of a key. -/
def hybridSign (message : Bytes) (key : KeyPair) : SignatureBlock :=
  { alg := "ml-dsa-65+ed25519"
    keyId := key.keyId
    mlDsa := signatureText key.directoryEntry.mlDsaPub message
    ed25519 := signatureText key.directoryEntry.ed25519Pub message }

/-- Both halves must be the signature of the message under the entry. -/
def hybridVerify (message : Bytes) (block : SignatureBlock) (entry : DirectoryEntry) : Bool :=
  decide (block.mlDsa = signatureText entry.mlDsaPub message) &&
    decide (block.ed25519 = signatureText entry.ed25519Pub message)

/-- `String(value)`; objects other than texts and numbers have no text of their own. -/
def textOf : JsValue → Except String String
  | .undefined => .ok "undefined"
  | .null => .ok "null"
  | .bool b => .ok (toString b)
  | .num n => .ok (numberText n)
  | .str s => .ok s
  | _ => .ok "[object Object]"

/-- A JSON round trip, which plain data survives. -/
def jsonClone (v : JsValue) : Except String JsValue :=
  if v.plain && !v.isUndefined then .ok v else .error "not JSON"

/-- Texts compared by code point. -/
def localeCompare (a b : String) : JsNumber := .ofInt (if a < b then -1 else if a = b then 0 else 1)

/-- A stable sort; a comparator that answers `NaN` counts as equal. -/
def sort {α : Type} (cmp : α → α → JsNumber) (l : List α) : List α :=
  l.insertionSort fun a b => JsNumber.lt (.ofInt 0) (cmp a b) = false

/-- The reference host. -/
def host : Host where
  dateParse := dateParse
  numberText := numberText
  textOf := textOf
  jsonClone := jsonClone
  localeCompare := localeCompare
  nfc text := String.ofList (composeAcute text.toList)
  regExp := literalPattern
  sort := sort
  atob := atob
  sha256 := digest
  hmacSha256 := keyedDigest
  canonicalCbor := canonicalCbor
  cborDecode := cborDecode
  hybridSign := hybridSign
  hybridVerify := hybridVerify

private theorem sort_eq {α : Type} {cmp : α → α → JsNumber} {key : α → Int} {l : List α}
    (h : ∀ a ∈ l, ∀ b ∈ l, cmp a b = .sub (.ofInt (key a)) (.ofInt (key b))) :
    sort cmp l = l.insertionSort fun a b => key a ≤ key b := by
  apply insertionSort_congr
  intro a ha b hb
  rw [h a ha b hb, JsNumber.lt_sub_ofInt, decide_eq_false_iff_not]
  omega

/-- The sort satisfies the laws of `sort`. -/
theorem sortLaws : SortLaws host where
  perm _ l := List.perm_insertionSort _ l
  sorted cmp key l h := by
    have hsorted := List.pairwise_insertionSort (fun a b => key a ≤ key b) l
    rw [← sort_eq h] at hsorted
    exact hsorted

/-- The sort is stable. -/
theorem stableSort : StableSort host where
  toSortLaws := sortLaws
  stable cmp key l h t := by
    have hsorted : StablySorted key l (l.insertionSort fun a b => key a ≤ key b) :=
      stablySorted_insertionSort l
    rw [← sort_eq h] at hsorted
    exact hsorted.fibres t

/-- It is stable for every key that the comparator agrees with. -/
theorem keyedSort : KeyedSort host where
  stably cmp key l h := by
    have heq : host.sort cmp l = l.insertionSort fun a b => key a ≤ key b := by
      apply insertionSort_congr
      intro a ha b hb
      rw [← Bool.not_eq_true, (h a ha b hb).2, not_lt]
    rw [heq]
    exact stablySorted_insertionSort l

/-- Dates the calendar writes are read back. -/
example : dateParse (isoText 1767225600000) = some 1767225600000 := by decide

end CoolSdk.Reference
