import CoolSdk.Platform.Der

/-!
# Object identifiers and integers in DER

What the writers make of identifiers and integers is read back, with one exception: the two
leading arcs share a number that is written into a single byte, and the reader takes a byte from
128 on as one that is continued.
-/

namespace CoolSdk

/-! ## Reader -/

/-- Assert the tag of an element. -/
def expectTag (n : DerNode) (tag : UInt8) (what : String) : Except DerError DerNode :=
  let hex (t : UInt8) := String.ofList (Nat.toDigits 16 t.toNat)
  if n.tag ≠ tag then
    .error ⟨what ++ ": expected tag 0x" ++ hex tag ++ ", got 0x" ++ hex n.tag⟩
  else .ok n

def MAX_SAFE_INTEGER : Nat := 2 ^ 53 - 1

/-- `arcs.push(...)` of a number that is complete; the first is that of two arcs. -/
def pushArc (arcs : List Nat) (v : Nat) : List Nat :=
  if arcs = [] then (if v < 80 then [v / 40, v % 40] else [2, v - 80]) else arcs ++ [v]

/-- The loop of `decodeOid`, from the arcs so far and the number so far. -/
def decodeArcs : List Nat → Nat → Bytes → Except DerError (List Nat)
  | arcs, _, [] => .ok arcs
  | arcs, v, byte :: rest =>
    if v = 0 ∧ byte = 0x80 then .error ⟨"non-minimal OID arc"⟩
    else
      let v := v * 128 + byte.toNat % 128
      -- `v > Number.MAX_SAFE_INTEGER / 128`
      if MAX_SAFE_INTEGER < 128 * v then .error ⟨"OID arc too large"⟩
      else if byte.toNat < 128 then decodeArcs (pushArc arcs v) 0 rest
      else if rest = [] then .error ⟨"truncated OID"⟩
      else decodeArcs arcs v rest

/-- `arcs.join(".")`. -/
def dotted (arcs : List Nat) : String := ".".intercalate (arcs.map toString)

def decodeOid (n : DerNode) : Except DerError String := do
  let n ← expectTag n TAG.OID "OID"
  if n.content = [] then .error ⟨"empty OID"⟩
  else do
    let arcs ← decodeArcs [] 0 n.content
    return dotted arcs

/-- The bytes of an integer behind its sign byte. -/
def integerBytes (n : DerNode) : Except DerError Bytes := do
  let n ← expectTag n TAG.INTEGER "INTEGER"
  match n.content with
  | [] => .error ⟨"empty INTEGER"⟩
  | [b] => .ok [b]
  | b :: next :: rest =>
    if b = 0 ∧ next.toNat < 128 ∨ b = 0xff ∧ 128 ≤ next.toNat then .error ⟨"non-minimal INTEGER"⟩
    else .ok (if b = 0 then next :: rest else b :: next :: rest)

def integerValue (n : DerNode) : Except DerError Nat := do
  let b ← integerBytes n
  if 128 ≤ (n.content.headD 0).toNat then .error ⟨"negative INTEGER"⟩
  else if 6 < b.length then .error ⟨"INTEGER too large for a number"⟩
  else .ok (numberOf b)

/-! ## Writer -/

/-- The bytes from the first that is not zero on, or the last. -/
def skipZeros : Bytes → Bytes
  | b :: next :: rest => if b = 0 then skipZeros (next :: rest) else b :: next :: rest
  | bytes => bytes

/-- The content of an integer: a sign byte where the first bit is set. -/
def integerContent (bytes : Bytes) : Bytes :=
  let t := skipZeros bytes
  if 128 ≤ (t.headD 0).toNat then 0 :: t else t

/-- `derInteger` of bytes. -/
def derInteger (bytes : Bytes) : Bytes := tlv TAG.INTEGER (integerContent bytes)

/-- `derInteger` of a number. -/
def derIntegerOf (n : Nat) : Bytes := derInteger (if n = 0 then [0] else numberBytes n)

/-- The bytes of a further arc: every byte but the last is marked as one that is continued. -/
def arcBytes (arc : Nat) : Bytes :=
  (Positional.digits 128 (arc / 128)).map (fun d => .ofNat (128 ||| d)) ++ [.ofNat (arc % 128)]

/-- The content of an identifier. The number of the first two arcs becomes one byte, which keeps
its eight lowest bits. -/
def oidContent : List Nat → Bytes
  | first :: second :: arcs => .ofNat (40 * first + second) :: arcs.flatMap arcBytes
  | _ => [0]

/-- `dotted.split(".").map(Number)` of decimal arcs. -/
def arcsOf (text : String) : List Nat :=
  (text.toList.splitOn '.').map fun part => Nat.ofDigitChars 10 part 0

def derOid (text : String) : Bytes := tlv TAG.OID (oidContent (arcsOf text))

/-! ## Texts of identifiers -/

theorem arcsOf_dotted {arcs : List Nat} (h : arcs ≠ []) : arcsOf (dotted arcs) = arcs := by
  have hdigits : ∀ part ∈ arcs.map fun n => Nat.toDigits 10 n, '.' ∉ part := by
    intro part hpart hdot
    obtain ⟨n, -, rfl⟩ := List.mem_map.mp hpart
    have := Nat.isDigit_of_mem_toDigits (by decide) (by decide) hdot
    revert this
    decide
  have htexts : (arcs.map toString).map String.toList = arcs.map fun n => Nat.toDigits 10 n := by
    rw [List.map_map]
    exact List.map_congr_left fun n _ => by simp
  have hsplit := List.splitOn_intercalate '.' hdigits (by simpa using h)
  rw [arcsOf, dotted, String.toList_intercalate, htexts]
  change (List.splitOn '.' (['.'].intercalate _)).map _ = arcs
  rw [hsplit, List.map_map]
  conv_rhs => rw [← List.map_id arcs]
  exact List.map_congr_left fun n _ => Nat.ofDigitChars_ten_toDigits

theorem dotted_injective {arcs arcs' : List Nat} (h : arcs ≠ []) (h' : arcs' ≠ [])
    (heq : dotted arcs = dotted arcs') : arcs = arcs' := by
  rw [← arcsOf_dotted h, heq, arcsOf_dotted h']

/-! ## Primitive elements -/

theorem length_lengthOctets_mono {n m : Nat} (h : n ≤ m) :
    (lengthOctets n).length ≤ (lengthOctets m).length := by
  have hbytes : (numberBytes n).length ≤ (numberBytes m).length := by
    rw [length_numberBytes_le_iff]
    exact h.trans_lt (length_numberBytes_le_iff.mp le_rfl)
  rw [lengthOctets, lengthOctets]
  split_ifs with hn hm
  · exact le_rfl
  · exact Nat.succ_le_succ (Nat.zero_le _)
  · omega
  · exact Nat.succ_le_succ hbytes

/-- A primitive element is read back exactly where its content is shorter than `2 ^ 32` bytes. -/
theorem parseDer_tlv_iff {tag : UInt8} {content : Bytes} {node : DerNode}
    (htag : isMultiByte tag = false) (hplain : isConstructed tag = false) :
    parseDer (tlv tag content) = .ok node ↔
      content.length < 2 ^ 32 ∧ node = .mk tag (tlv tag content) content false [] := by
  have hwritten : content.length < 2 ^ 32 →
      parseDer (tlv tag content) = .ok (.mk tag (tlv tag content) content false []) := fun hlen =>
    parseDer_iff.mpr ⟨.leaf tag content, .leaf htag hplain hlen, Nat.zero_le _, rfl, rfl⟩
  constructor
  · intro h
    have hlen : content.length < 2 ^ 32 := by
      obtain ⟨t, hfits, -, henc, -⟩ := parseDer_iff.mp h
      cases hfits with
      | @leaf tag' content' _ _ hlen =>
        by_contra hlong
        have hmono := length_lengthOctets_mono (hlen.le.trans (not_lt.mp hlong))
        have hlength := congrArg List.length henc
        simp only [DerTree.encode, tlv, List.length_append, List.length_cons] at hlength
        omega
      | branch _ hconstructed _ _ =>
        obtain ⟨rfl, -⟩ := List.cons_eq_cons.mp henc
        rw [hplain] at hconstructed
        cases hconstructed
    exact ⟨hlen, Except.ok.inj (h.symm.trans (hwritten hlen))⟩
  · rintro ⟨hlen, rfl⟩
    exact hwritten hlen

/-- What is read of a primitive element, exactly where its content is short enough. -/
theorem parseDer_bind_iff {α : Type} {tag : UInt8} {content : Bytes}
    (htag : isMultiByte tag = false) (hplain : isConstructed tag = false)
    {f : DerNode → Except DerError α} {a : α} :
    parseDer (tlv tag content) >>= f = .ok a ↔
      content.length < 2 ^ 32 ∧ f (.mk tag (tlv tag content) content false []) = .ok a := by
  rw [bind_eq_ok]
  constructor
  · rintro ⟨node, hnode, hf⟩
    obtain ⟨hlen, rfl⟩ := (parseDer_tlv_iff htag hplain).mp hnode
    exact ⟨hlen, hf⟩
  · rintro ⟨hlen, hf⟩
    exact ⟨_, (parseDer_tlv_iff htag hplain).mpr ⟨hlen, rfl⟩, hf⟩

/-! ## Integers -/

/-- A byte string without the zero bytes it starts with, and a single zero byte for zero. -/
def withoutLeadingZeros (bytes : Bytes) : Bytes :=
  if bytes.all (· == 0) then [0] else bytes.dropWhile (· == 0)

theorem skipZeros_eq {bytes : Bytes} (h : bytes ≠ []) :
    skipZeros bytes = withoutLeadingZeros bytes := by
  induction bytes with
  | nil => exact absurd rfl h
  | cons b rest ih =>
    cases rest with
    | nil =>
      by_cases hb : b = 0
      · rw [hb]
        rfl
      · simp [skipZeros, withoutLeadingZeros, hb]
    | cons next rest =>
      by_cases hb : b = 0
      · rw [skipZeros, if_pos hb, ih (List.cons_ne_nil _ _), hb, withoutLeadingZeros,
          withoutLeadingZeros]
        simp
      · rw [skipZeros, if_neg hb, withoutLeadingZeros]
        simp [hb]

/-- What is left has at least one byte, and starts with no zero where it has more. -/
theorem skipZeros_spec {bytes : Bytes} (h : bytes ≠ []) :
    ∃ b rest, skipZeros bytes = b :: rest ∧ (rest ≠ [] → b ≠ 0) := by
  induction bytes with
  | nil => exact absurd rfl h
  | cons b rest ih =>
    cases rest with
    | nil => exact ⟨b, [], rfl, fun hne => absurd rfl hne⟩
    | cons next rest =>
      by_cases hb : b = 0
      · rw [skipZeros, if_pos hb]
        exact ih (List.cons_ne_nil _ _)
      · exact ⟨b, next :: rest, by rw [skipZeros, if_neg hb], fun _ => hb⟩

/-- The element of an integer's content. -/
def integerNode (content : Bytes) : DerNode :=
  .mk TAG.INTEGER (tlv TAG.INTEGER content) content false []

/-- The bytes of an integer are read back behind the sign byte. -/
theorem integerBytes_content {bytes : Bytes} (h : bytes ≠ []) :
    integerBytes (integerNode (integerContent bytes)) = .ok (skipZeros bytes) := by
  obtain ⟨b, rest, ht, hlead⟩ := skipZeros_spec h
  have hcontent : integerContent bytes = if 128 ≤ b.toNat then 0 :: b :: rest else b :: rest := by
    rw [integerContent, ht]
    rfl
  rw [hcontent, ht]
  split_ifs with hsign
  · change (if _ then _ else _) = _
    rw [if_neg]
    · rfl
    · rintro (⟨-, hlow⟩ | ⟨hff, -⟩)
      · omega
      · cases hff
  · cases rest with
    | nil => rfl
    | cons next rest =>
      have hb : b ≠ 0 := hlead (List.cons_ne_nil _ _)
      change (if _ then _ else _) = _
      rw [if_neg]
      · rw [if_neg hb]
      · rintro (⟨hzero, -⟩ | ⟨hff, -⟩)
        · exact hb hzero
        · rw [hff] at hsign
          exact hsign (by decide)

theorem integerValue_content {bytes : Bytes} (h : bytes ≠ [])
    (hlen : (skipZeros bytes).length ≤ 6) :
    integerValue (integerNode (integerContent bytes)) = .ok (numberOf (skipZeros bytes)) := by
  have hsign : (((integerNode (integerContent bytes)).content).headD 0).toNat < 128 := by
    change ((integerContent bytes).headD 0).toNat < 128
    rw [integerContent]
    split_ifs with hset
    · exact (by decide : (0 : UInt8).toNat < 128)
    · exact not_le.mp hset
  rw [integerValue, integerBytes_content h, ok_bind, if_neg (by omega), if_neg (by omega)]

theorem length_integerContent_le (bytes : Bytes) :
    (integerContent bytes).length ≤ (skipZeros bytes).length + 1 := by
  rw [integerContent]
  split_ifs
  · exact le_rfl
  · exact Nat.le_succ _

theorem skipZeros_numberBytes {n : Nat} (h : n ≠ 0) :
    numberBytes n ≠ [] ∧ skipZeros (numberBytes n) = numberBytes n := by
  have hne : numberBytes n ≠ [] := by
    rw [numberBytes, ne_eq, List.map_eq_nil_iff]
    exact Positional.digits_ne_nil_iff.mpr h
  refine ⟨hne, ?_⟩
  have hhead := head?_numberBytes n
  rcases hbytes : numberBytes n with _ | ⟨b, _ | ⟨next, rest⟩⟩
  · rfl
  · rfl
  · rw [hbytes] at hhead
    rw [skipZeros, if_neg fun hb => hhead (by rw [hb]; rfl)]

/-- A number below `2 ^ 48` is read back. -/
theorem integerValue_derIntegerOf {n : Nat} (h : n < 2 ^ 48) :
    parseDer (derIntegerOf n) >>= integerValue = .ok n := by
  rw [derIntegerOf, derInteger, parseDer_bind_iff rfl rfl]
  change _ ∧ integerValue (integerNode _) = _
  by_cases hn : n = 0
  · rw [if_pos hn, hn]
    exact ⟨by decide, rfl⟩
  · obtain ⟨hne, hskip⟩ := skipZeros_numberBytes hn
    have hlen : (skipZeros (numberBytes n)).length ≤ 6 := by
      rw [hskip]
      exact length_numberBytes_le_iff.mpr (h.trans_le (by decide))
    rw [if_neg hn]
    constructor
    · exact (length_integerContent_le _).trans_lt (by omega)
    · rw [integerValue_content hne hlen, hskip, numberOf_numberBytes]

/-- Bytes are read back without their leading zeros exactly where a content can be so long. -/
theorem integerBytes_derInteger_iff {b : Bytes} (h : b ≠ []) :
    parseDer (derInteger b) >>= integerBytes = .ok (withoutLeadingZeros b) ↔
      (integerContent b).length < 2 ^ 32 := by
  rw [derInteger, parseDer_bind_iff rfl rfl]
  change _ ∧ integerBytes (integerNode _) = _ ↔ _
  rw [integerBytes_content h, skipZeros_eq h]
  exact and_iff_left rfl

/-! ## Identifiers -/

variable {arcs : List Nat} {v arc : Nat} {rest : Bytes}

theorem or_128 {d : Nat} (h : d < 128) : 128 ||| d = 128 + d :=
  (Nat.two_pow_add_eq_or_of_lt (i := 7) h 1).symm

theorem le_foldl_digits (ds : List Nat) (v : Nat) : v ≤ ds.foldl (fun v d => v * 128 + d) v := by
  induction ds generalizing v with
  | nil => exact le_rfl
  | cons d ds ih =>
    rw [List.foldl_cons]
    exact le_trans (by omega) (ih _)

/-- Continued bytes accumulate into the number, unless it is too large or starts with a zero. -/
theorem decodeArcs_continued {ds : List Nat} (hlt : ∀ d ∈ ds, d < 128)
    (hhead : v = 0 → ds.head? ≠ some 0) (hrest : rest ≠ [])
    (hsafe : 128 * ds.foldl (fun v d => v * 128 + d) v ≤ MAX_SAFE_INTEGER) :
    decodeArcs arcs v (ds.map (fun d => UInt8.ofNat (128 ||| d)) ++ rest) =
      decodeArcs arcs (ds.foldl (fun v d => v * 128 + d) v) rest := by
  induction ds generalizing v with
  | nil => rfl
  | cons d ds ih =>
    obtain ⟨hd, hds⟩ := List.forall_mem_cons.mp hlt
    have hbyte : (UInt8.ofNat (128 ||| d)).toNat = 128 + d := by
      rw [or_128 hd]
      exact UInt8.toNat_ofNat_of_lt' (lt_of_lt_of_le (Nat.add_lt_add_left hd _) (by decide))
    have hminimal : ¬(v = 0 ∧ UInt8.ofNat (128 ||| d) = 0x80) := by
      rintro ⟨hv, hzero⟩
      have hd0 : 128 + d = 128 := by
        rw [← hbyte, hzero]
        rfl
      exact hhead hv (by rw [List.head?_cons, Nat.add_eq_left.mp hd0])
    have hle := le_foldl_digits ds (v * 128 + d)
    rw [List.foldl_cons] at hsafe
    rw [List.map_cons, List.cons_append, decodeArcs, if_neg hminimal]
    dsimp only
    rw [hbyte, show (128 + d) % 128 = d by omega, if_neg (by omega), if_neg (by omega),
      if_neg (by simp [hrest])]
    refine ih hds (fun hv => ?_) hsafe
    -- the first digit was not zero, so the number is not zero any more
    exfalso
    have hv0 : v = 0 := by omega
    have hd0 : d = 0 := by omega
    exact hhead hv0 (by rw [List.head?_cons, hd0])

/-- A number whose bytes are complete becomes an arc. -/
theorem decodeArcs_last {byte : UInt8} (hbyte : byte.toNat < 128)
    (hsafe : 128 * (v * 128 + byte.toNat) ≤ MAX_SAFE_INTEGER) :
    decodeArcs arcs v (byte :: rest) = decodeArcs (pushArc arcs (v * 128 + byte.toNat)) 0 rest := by
  have hminimal : ¬(v = 0 ∧ byte = 0x80) := by
    rintro ⟨-, rfl⟩
    exact absurd hbyte (by decide)
  rw [decodeArcs, if_neg hminimal]
  dsimp only
  rw [Nat.mod_eq_of_lt hbyte, if_neg (not_lt.mpr hsafe), if_pos hbyte]

/-- An arc that the reader accepts is read back from its bytes. -/
theorem decodeArcs_arcBytes (hsafe : 128 * arc ≤ MAX_SAFE_INTEGER) :
    decodeArcs arcs 0 (arcBytes arc ++ rest) = decodeArcs (pushArc arcs arc) 0 rest := by
  have hvalue : (Positional.digits 128 (arc / 128)).foldl (fun v d => v * 128 + d) 0 = arc / 128 :=
    Positional.value_digits 128 (arc / 128)
  have hbyte : (UInt8.ofNat (arc % 128)).toNat = arc % 128 :=
    UInt8.toNat_ofNat_of_lt' ((Nat.mod_lt _ (by decide)).trans (by decide))
  have hsplit : arc / 128 * 128 + arc % 128 = arc := by omega
  rw [arcBytes, List.append_assoc, decodeArcs_continued
    (fun d => Positional.digits_lt (by decide))
    (fun _ => Positional.head?_digits_ne_zero 128 (arc / 128)) (by simp) (by rw [hvalue]; omega),
    hvalue, List.singleton_append, decodeArcs_last (by rw [hbyte]; omega)
      (by rw [hbyte, hsplit]; exact hsafe), hbyte, hsplit]

theorem decodeArcs_flatMap {further : List Nat} (harcs : arcs ≠ [])
    (hsafe : ∀ arc ∈ further, 128 * arc ≤ MAX_SAFE_INTEGER) :
    decodeArcs arcs 0 (further.flatMap arcBytes) = .ok (arcs ++ further) := by
  induction further generalizing arcs with
  | nil => simp [decodeArcs]
  | cons arc further ih =>
    obtain ⟨harc, hfurther⟩ := List.forall_mem_cons.mp hsafe
    rw [List.flatMap_cons, decodeArcs_arcBytes harc, pushArc, if_neg harcs,
      ih (by simp) hfurther, List.append_assoc, List.singleton_append]

/-- The reader returns an arc for every byte that completes one, and one more for the first. -/
theorem length_decodeArcs {bytes : Bytes} {result : List Nat}
    (h : decodeArcs arcs v bytes = .ok result) :
    result.length ≤ arcs.length + (if arcs = [] then 1 else 0) +
      bytes.countP (fun b => decide (b.toNat < 128)) := by
  induction bytes generalizing arcs v with
  | nil =>
    cases h
    omega
  | cons byte bytes ih =>
    rw [decodeArcs] at h
    dsimp only at h
    split_ifs at h with _ _ hbyte
    · have hlen := ih h
      rw [List.countP_cons_of_pos (by simpa using hbyte)]
      rw [pushArc] at hlen
      split_ifs at hlen ⊢ <;> simp_all <;> omega
    · rw [List.countP_cons_of_neg (by simpa using hbyte)]
      exact ih h

theorem countP_arcBytes (arc : Nat) :
    (arcBytes arc).countP (fun b => decide (b.toNat < 128)) = 1 := by
  have hlast : (UInt8.ofNat (arc % 128)).toNat < 128 := by
    rw [UInt8.toNat_ofNat_of_lt' ((Nat.mod_lt _ (by decide)).trans (by decide))]
    exact Nat.mod_lt _ (by decide)
  rw [arcBytes, List.countP_append, List.countP_eq_zero.mpr]
  · rw [List.countP_cons_of_pos (by simpa using hlast)]
    rfl
  · intro b hb
    obtain ⟨d, hd, rfl⟩ := List.mem_map.mp hb
    have hd' : d < 128 := Positional.digits_lt (by decide) hd
    rw [or_128 hd', UInt8.toNat_ofNat_of_lt'
      (lt_of_lt_of_le (Nat.add_lt_add_left hd' _) (by decide))]
    simp

theorem countP_flatMap_arcBytes (further : List Nat) :
    (further.flatMap arcBytes).countP (fun b => decide (b.toNat < 128)) = further.length := by
  induction further with
  | nil => rfl
  | cons arc further ih =>
    rw [List.flatMap_cons, List.countP_append, countP_arcBytes, ih, List.length_cons, Nat.add_comm]

/-- The element of an identifier's content. -/
def oidNode (content : Bytes) : DerNode := .mk TAG.OID (tlv TAG.OID content) content false []

theorem decodeOid_iff {content : Bytes} {text : String} (h : content ≠ []) :
    decodeOid (oidNode content) = .ok text ↔
      ∃ arcs, decodeArcs [] 0 content = .ok arcs ∧ dotted arcs = text := by
  change (if content = [] then _ else _) = _ ↔ _
  rw [if_neg h, bind_eq_ok]
  constructor
  · rintro ⟨arcs, harcs, htext⟩
    exact ⟨arcs, harcs, Except.ok.inj htext⟩
  · rintro ⟨arcs, harcs, htext⟩
    exact ⟨arcs, harcs, congrArg Except.ok htext⟩

/-- An identifier whose further arcs the reader accepts is read back exactly where the number of
its first two arcs fits seven bits, and its content is short enough. -/
theorem decodeOid_derOid_iff {a b : Nat} {further : List Nat} (ha : a ≤ 2) (hb : a < 2 → b < 40)
    (hfurther : ∀ arc ∈ further, 128 * arc ≤ MAX_SAFE_INTEGER) :
    parseDer (derOid (dotted (a :: b :: further))) >>= decodeOid =
        .ok (dotted (a :: b :: further)) ↔
      40 * a + b < 128 ∧ (oidContent (a :: b :: further)).length < 2 ^ 32 := by
  rw [derOid, arcsOf_dotted (List.cons_ne_nil _ _), parseDer_bind_iff rfl rfl, and_comm]
  change decodeOid (oidNode _) = _ ∧ _ ↔ _
  rw [decodeOid_iff (by rw [oidContent]; exact List.cons_ne_nil _ _)]
  refine and_congr_left fun _ => ?_
  rw [oidContent]
  have hread : ∀ {byte : UInt8}, byte.toNat < 128 →
      decodeArcs [] 0 (byte :: further.flatMap arcBytes) =
        .ok (pushArc [] byte.toNat ++ further) := by
    intro byte hbyte
    have hsafe : 128 * (0 * 128 + byte.toNat) ≤ MAX_SAFE_INTEGER :=
      (Nat.mul_le_mul_left 128 (by omega : 0 * 128 + byte.toNat ≤ 128)).trans (by decide)
    have hpush : pushArc [] byte.toNat ≠ [] := by
      rw [pushArc, if_pos rfl]
      split_ifs <;> exact List.cons_ne_nil _ _
    rw [decodeArcs_last hbyte hsafe, Nat.zero_mul, Nat.zero_add,
      decodeArcs_flatMap hpush hfurther]
  constructor
  · rintro ⟨arcs, harcs, htext⟩
    by_contra hlarge
    have ha2 : a = 2 := by
      by_contra hne
      have := hb (by omega)
      omega
    have hsame : arcs = a :: b :: further := by
      have htexts := congrArg arcsOf htext
      rw [arcsOf_dotted (List.cons_ne_nil _ _)] at htexts
      by_cases hnil : arcs = []
      · rw [hnil] at htexts
        exact absurd (congrArg List.length htexts) (by simp [arcsOf, dotted])
      · rwa [arcsOf_dotted hnil] at htexts
    by_cases hbyte : (UInt8.ofNat (40 * a + b)).toNat < 128
    · rw [hread hbyte] at harcs
      have hpair := (Except.ok.inj harcs).trans hsame
      rw [pushArc, if_pos rfl] at hpair
      split_ifs at hpair with hlow
      · obtain ⟨hdiv, -⟩ := List.cons_eq_cons.mp hpair
        omega
      · obtain ⟨-, hpair⟩ := List.cons_eq_cons.mp hpair
        obtain ⟨hsub, -⟩ := List.cons_eq_cons.mp hpair
        omega
    · -- the byte is taken as a continued one, so an arc is missing
      have hlen := length_decodeArcs harcs
      rw [List.countP_cons_of_neg (by simpa using hbyte), countP_flatMap_arcBytes, hsame] at hlen
      simp only [List.length_cons, List.length_nil, if_true] at hlen
      omega
  · intro hsmall
    have hbyte : (UInt8.ofNat (40 * a + b)).toNat = 40 * a + b :=
      UInt8.toNat_ofNat_of_lt' (hsmall.trans (by decide))
    refine ⟨_, hread (by rw [hbyte]; exact hsmall), congrArg dotted ?_⟩
    rw [hbyte, pushArc, if_pos rfl]
    split_ifs with hlow
    · have ha2 : a < 2 := by omega
      have hb' := hb ha2
      rw [show (40 * a + b) / 40 = a by omega, show (40 * a + b) % 40 = b by omega]
      rfl
    · have ha2 : a = 2 := by
        by_contra hne
        have := hb (by omega)
        omega
      rw [ha2, show 40 * 2 + b - 80 = b by omega]
      rfl

/-- Scalars are read back from what is written of them, exactly: an identifier where the number of
its first two arcs fits seven bits, a number below `2 ^ 48` always, and bytes without their leading
zeros always, as far as a content can be that long. -/
theorem der_scalars_iff (a b : Nat) (further : List Nat) (n : Nat) (bytes : Bytes) :
    (a ≤ 2 → (a < 2 → b < 40) → (∀ arc ∈ further, 128 * arc ≤ MAX_SAFE_INTEGER) →
      (parseDer (derOid (dotted (a :: b :: further))) >>= decodeOid =
          .ok (dotted (a :: b :: further)) ↔
        40 * a + b < 128 ∧ (oidContent (a :: b :: further)).length < 2 ^ 32)) ∧
    (n < 2 ^ 48 → parseDer (derIntegerOf n) >>= integerValue = .ok n) ∧
    (bytes ≠ [] →
      (parseDer (derInteger bytes) >>= integerBytes = .ok (withoutLeadingZeros bytes) ↔
        (integerContent bytes).length < 2 ^ 32)) := by
  refine ⟨?_, ?_, ?_⟩
  · intro ha hb hfurther
    exact decodeOid_derOid_iff ha hb hfurther
  · intro hn
    exact integerValue_derIntegerOf hn
  · intro hbytes
    exact integerBytes_derInteger_iff hbytes

theorem der_scalars_signedData :
    parseDer (derOid "1.2.840.113549.1.7.2") >>= decodeOid = .ok "1.2.840.113549.1.7.2" ∧
      parseDer (derIntegerOf 65536) >>= integerValue = .ok 65536 ∧
      parseDer (derInteger [0, 0, 200]) >>= integerBytes = .ok [200] := by
  obtain ⟨hoid, hvalue, hbytes⟩ := der_scalars_iff 1 2 [840, 113549, 1, 7, 2] 65536 [0, 0, 200]
  refine ⟨?_, hvalue (by decide), (hbytes (by decide)).mpr (by decide)⟩
  exact (hoid (by decide) (by decide) (by decide)).mpr (by decide +kernel)

/-- A second arc from 48 on below the arc 2 is written into a byte that is not read back. -/
theorem decodeOid_large_second_arc :
    parseDer (derOid "2.48") >>= decodeOid = .error ⟨"non-minimal OID arc"⟩ ∧
      parseDer (derOid "2.999.3") >>= decodeOid = .ok "1.15.3" := by
  decide +kernel

end CoolSdk
