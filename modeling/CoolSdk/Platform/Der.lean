import CoolSdk.Core.Fallible
import CoolSdk.Core.Positional
import CoolSdk.Wire.Codec

/-!
# DER

A strict reader of definite-length elements and the writer it mirrors. An element has a tag of one
byte, the shortest form of its length, and its content; the content of a constructed element is a
sequence of elements.
-/

namespace CoolSdk

structure DerError where
  message : String
  deriving DecidableEq, Repr

/-- An element: its tag, header and content, content, and the elements inside. -/
inductive DerNode
  | mk (tag : UInt8) (raw content : Bytes) (constructed : Bool) (children : List DerNode)

namespace DerNode

def tag : DerNode → UInt8
  | mk tag _ _ _ _ => tag

/-- Header and content. -/
def raw : DerNode → Bytes
  | mk _ raw _ _ _ => raw

def content : DerNode → Bytes
  | mk _ _ content _ _ => content

def constructed : DerNode → Bool
  | mk _ _ _ constructed _ => constructed

def children : DerNode → List DerNode
  | mk _ _ _ _ children => children

end DerNode

/-! ## Reader -/

/-- The number that bytes hold, most significant first. -/
def numberOf (bytes : Bytes) : Nat := Positional.value 256 (bytes.map UInt8.toNat)

/-- A length from its first byte, and what is left. -/
def readLength (first : UInt8) (rest : Bytes) : Except DerError (Nat × Bytes) :=
  if first.toNat < 0x80 then .ok (first.toNat, rest)
  else
    let n := first.toNat % 0x80
    if n = 0 then .error ⟨"indefinite length is not DER"⟩
    else if 4 < n then .error ⟨"DER length too large"⟩
    else if rest.length < n then .error ⟨"truncated DER length"⟩
    else
      let len := numberOf (rest.take n)
      if rest.head? = some 0 ∨ len < 0x80 then .error ⟨"non-minimal DER length"⟩
      else .ok (len, rest.drop n)

/-- Whether a tag is that of a constructed element. -/
def isConstructed (tag : UInt8) : Bool := decide (tag &&& 0x20 ≠ 0)

/-- Whether more bytes of a tag follow. -/
def isMultiByte (tag : UInt8) : Bool := decide (tag &&& 0x1f = 0x1f)

/-- The elements of a content. An element takes bytes of it, so its length bounds their number. -/
def readAll (read : Bytes → Except DerError (DerNode × Bytes)) :
    Nat → Bytes → Except DerError (List DerNode)
  | 0, _ => .ok []
  | _ + 1, [] => .ok []
  | bound + 1, byte :: rest => do
    let (node, next) ← read (byte :: rest)
    let nodes ← readAll read bound next
    return node :: nodes

/-- The elements inside an element. -/
def readContent (read : Bytes → Except DerError (DerNode × Bytes)) (constructed : Bool)
    (content : Bytes) : Except DerError (List DerNode) :=
  if constructed then readAll read content.length content else .ok []

/-- An element at the start of the input and what is left, within so many levels. -/
def readOne : Nat → Bytes → Except DerError (DerNode × Bytes)
  | 0, _ => .error ⟨"DER nesting too deep"⟩
  | levels + 1, buf =>
    match buf with
    | tag :: first :: rest =>
      if isMultiByte tag then .error ⟨"multi-byte DER tags are not supported"⟩
      else do
        let (len, rest) ← readLength first rest
        if rest.length < len then
          .error ⟨"DER content runs past the end of the input"⟩
        else do
          let content := rest.take len
          let next := rest.drop len
          let children ← readContent (readOne levels) (isConstructed tag) content
          .ok (.mk tag (buf.take (buf.length - next.length)) content (isConstructed tag) children,
            next)
    | _ => .error ⟨"truncated DER header"⟩

def MAX_DEPTH : Nat := 32

/-- Exactly one element; bytes behind it are an error. The outermost is at depth zero. -/
def parseDer (buf : Bytes) : Except DerError DerNode := do
  let (node, next) ← readOne (MAX_DEPTH + 1) buf
  if next ≠ [] then .error ⟨"trailing bytes after the DER element"⟩ else .ok node

/-! ## Writer -/

/-- The bytes of a number, none for zero. -/
def numberBytes (n : Nat) : Bytes := (Positional.digits 256 n).map UInt8.ofNat

/-- The shortest form of a length. -/
def lengthOctets (n : Nat) : Bytes :=
  if n < 0x80 then [.ofNat n]
  else
    let bytes := numberBytes n
    .ofNat (0x80 ||| bytes.length) :: bytes

/-- Tag, length and content. -/
def tlv (tag : UInt8) (content : Bytes) : Bytes := tag :: lengthOctets content.length ++ content

namespace TAG

def INTEGER : UInt8 := 0x02

def OID : UInt8 := 0x06

def SEQUENCE : UInt8 := 0x30

def SET : UInt8 := 0x31

end TAG

def derSeq (parts : List Bytes) : Bytes := tlv TAG.SEQUENCE parts.flatten

def derSet (parts : List Bytes) : Bytes := tlv TAG.SET parts.flatten

/-- What a writer builds: contents under tags, and sequences of what is built under tags. -/
inductive DerTree
  | leaf (tag : UInt8) (content : Bytes)
  | branch (tag : UInt8) (children : List DerTree)

mutual

/-- What is written of a tree. -/
def DerTree.encode : DerTree → Bytes
  | .leaf tag content => tlv tag content
  | .branch tag children => tlv tag (DerTree.encodeAll children).flatten

def DerTree.encodeAll : List DerTree → List Bytes
  | [] => []
  | t :: ts => t.encode :: DerTree.encodeAll ts

end

mutual

/-- The element that a tree stands for. -/
def DerTree.node : DerTree → DerNode
  | .leaf tag content => .mk tag (tlv tag content) content false []
  | .branch tag children =>
    .mk tag (tlv tag (DerTree.encodeAll children).flatten) (DerTree.encodeAll children).flatten true
      (DerTree.nodes children)

def DerTree.nodes : List DerTree → List DerNode
  | [] => []
  | t :: ts => t.node :: DerTree.nodes ts

end

mutual

/-- How many levels there are below the outermost element. -/
def DerTree.nesting : DerTree → Nat
  | .leaf _ _ => 0
  | .branch _ children => DerTree.nestingAll children

/-- How many levels of elements there are. -/
def DerTree.nestingAll : List DerTree → Nat
  | [] => 0
  | t :: ts => max (t.nesting + 1) (DerTree.nestingAll ts)

end

/-- Every tag is of one byte and says whether there are elements inside, and every content is
shorter than `2 ^ 32` bytes. -/
inductive DerTree.Fits : DerTree → Prop
  | leaf {tag : UInt8} {content : Bytes} (htag : isMultiByte tag = false)
      (hconstructed : isConstructed tag = false) (hlen : content.length < 2 ^ 32) :
      Fits (.leaf tag content)
  | branch {tag : UInt8} {children : List DerTree} (htag : isMultiByte tag = false)
      (hconstructed : isConstructed tag = true)
      (hlen : (DerTree.encodeAll children).flatten.length < 2 ^ 32)
      (hchildren : ∀ t ∈ children, Fits t) : Fits (.branch tag children)

/-- An element's bytes are its tag and content written again, and the content of a constructed one
is what its elements are, one behind the other. -/
inductive DerNode.Reencodes : DerNode → Prop
  | mk {tag : UInt8} {raw content : Bytes} {constructed : Bool} {children : List DerNode}
      (hraw : raw = tlv tag content)
      (hcontent : constructed = true → content = (children.map DerNode.raw).flatten)
      (hplain : constructed = false → children = [])
      (hchildren : ∀ c ∈ children, Reencodes c) : Reencodes (.mk tag raw content constructed children)

/-! ## Lengths -/

theorem toNat_ofNat_digits {n : Nat} :
    (numberBytes n).map UInt8.toNat = Positional.digits 256 n := by
  rw [numberBytes, List.map_map]
  conv_rhs => rw [← List.map_id (Positional.digits 256 n)]
  apply List.map_congr_left
  intro d hd
  exact UInt8.toNat_ofNat_of_lt' (Positional.digits_lt (by decide) hd)

@[simp] theorem numberOf_numberBytes (n : Nat) : numberOf (numberBytes n) = n := by
  rw [numberOf, toNat_ofNat_digits, Positional.value_digits]

theorem length_numberBytes_le_iff {n k : Nat} : (numberBytes n).length ≤ k ↔ n < 256 ^ k := by
  rw [numberBytes, List.length_map, Positional.length_digits_le_iff (by decide)]

theorem toNat_lt_of_mem_map {bytes : Bytes} {d : Nat} (h : d ∈ bytes.map UInt8.toNat) : d < 256 := by
  obtain ⟨b, -, rfl⟩ := List.mem_map.mp h
  exact b.toNat_lt

/-- Bytes that start with no zero are the bytes of their number. -/
theorem numberBytes_numberOf {bytes : Bytes} (h : bytes.head? ≠ some 0) :
    numberBytes (numberOf bytes) = bytes := by
  rw [numberBytes, numberOf,
    Positional.digits_value (by decide) fun d => toNat_lt_of_mem_map, List.map_map]
  · conv_rhs => rw [← List.map_id bytes]
    exact List.map_congr_left fun b _ => UInt8.ofNat_toNat
  · intro hhead
    apply h
    rw [List.head?_map, Option.map_eq_some_iff] at hhead
    obtain ⟨b, hb, hzero⟩ := hhead
    rw [hb]
    exact congrArg some (UInt8.toNat_inj.mp hzero)

theorem head?_numberBytes (n : Nat) : (numberBytes n).head? ≠ some 0 := by
  intro h
  apply Positional.head?_digits_ne_zero 256 n
  rw [← toNat_ofNat_digits, List.head?_map, h]
  rfl

theorem numberOf_lt (bytes : Bytes) : numberOf bytes < 256 ^ bytes.length := by
  have hlt := Positional.value_lt (by decide : 1 < 256)
    fun d (h : d ∈ bytes.map UInt8.toNat) => toNat_lt_of_mem_map h
  rwa [List.length_map] at hlt

private theorem or_eq_add {k : Nat} (h : k ≤ 4) : 0x80 ||| k = 128 + k := by
  interval_cases k <;> rfl

/-- What is read as a length is the shortest form of a length below `2 ^ 32`. -/
theorem readLength_iff {first : UInt8} {rest next : Bytes} {len : Nat} :
    readLength first rest = .ok (len, next) ↔
      len < 2 ^ 32 ∧ first :: rest = lengthOctets len ++ next := by
  have hfirst := first.toNat_lt
  constructor
  · intro h
    rw [readLength] at h
    dsimp only at h
    split_ifs at h with hshort hzero hlarge htruncated hminimal
    · cases h
      refine ⟨by omega, ?_⟩
      rw [lengthOctets, if_pos hshort, UInt8.ofNat_toNat]
      rfl
    · cases h
      rw [not_or, not_lt] at hminimal
      obtain ⟨hhead, hlong⟩ := hminimal
      have htake : (rest.take (first.toNat % 0x80)).length = first.toNat % 0x80 := by
        rw [List.length_take]
        omega
      have hhead' : (rest.take (first.toNat % 0x80)).head? ≠ some 0 := by
        rwa [List.head?_take, if_neg hzero]
      have hlt := numberOf_lt (rest.take (first.toNat % 0x80))
      rw [htake] at hlt
      refine ⟨hlt.trans_le (Nat.pow_le_pow_right (by decide) (by omega) |>.trans
        (by decide : 256 ^ 4 ≤ 2 ^ 32)), ?_⟩
      rw [lengthOctets, if_neg (not_lt.mpr hlong)]
      dsimp only
      rw [numberBytes_numberOf hhead', htake, or_eq_add (by omega),
        show 128 + first.toNat % 0x80 = first.toNat by omega, UInt8.ofNat_toNat, List.cons_append,
        List.take_append_drop]
  · rintro ⟨hlen, h⟩
    rw [lengthOctets] at h
    split_ifs at h with hshort
    · obtain ⟨hf, hr⟩ : first = UInt8.ofNat len ∧ rest = next := by simpa using h
      have hvalue : first.toNat = len := by
        rw [hf]
        exact UInt8.toNat_ofNat_of_lt' (hshort.trans (by decide))
      rw [readLength, hvalue, if_pos hshort, hr]
    · have hk : (numberBytes len).length ≤ 4 := length_numberBytes_le_iff.mpr (by simpa using hlen)
      have hk' : 0 < (numberBytes len).length := by
        rw [Nat.pos_iff_ne_zero]
        intro hnil
        have hn := numberOf_numberBytes len
        rw [List.length_eq_zero_iff.mp hnil] at hn
        rw [← hn] at hshort
        exact hshort (by decide)
      obtain ⟨hf, hr⟩ : first = UInt8.ofNat (0x80 ||| (numberBytes len).length) ∧
          rest = numberBytes len ++ next := by simpa using h
      have hvalue : first.toNat = 128 + (numberBytes len).length := by
        rw [hf, or_eq_add hk]
        exact UInt8.toNat_ofNat_of_lt' (lt_of_le_of_lt (Nat.add_le_add_left hk _) (by decide))
      have hn : (128 + (numberBytes len).length) % 0x80 = (numberBytes len).length := by omega
      rw [readLength, hvalue, if_neg (by omega), hn, hr]
      dsimp only
      rw [if_neg (by omega), if_neg (by omega), if_neg (by rw [List.length_append]; omega),
        List.take_left' rfl, List.drop_left' rfl, numberOf_numberBytes, if_neg]
      rw [not_or]
      refine ⟨?_, hshort⟩
      rw [List.head?_append_of_ne_nil _ (List.ne_nil_of_length_pos hk')]
      exact head?_numberBytes len

/-! ## Elements -/

theorem encodeAll_eq (ts : List DerTree) : DerTree.encodeAll ts = ts.map DerTree.encode := by
  induction ts with
  | nil => rfl
  | cons t ts ih => rw [DerTree.encodeAll, List.map_cons, ih]

theorem nodes_eq (ts : List DerTree) : DerTree.nodes ts = ts.map DerTree.node := by
  induction ts with
  | nil => rfl
  | cons t ts ih => rw [DerTree.nodes, List.map_cons, ih]

theorem nestingAll_le_iff {ts : List DerTree} {levels : Nat} :
    DerTree.nestingAll ts ≤ levels ↔ ∀ t ∈ ts, t.nesting < levels := by
  induction ts with
  | nil => simp [DerTree.nestingAll]
  | cons t ts ih => rw [DerTree.nestingAll, max_le_iff, ih, List.forall_mem_cons, Nat.succ_le_iff]

theorem DerTree.encode_ne_nil (t : DerTree) : t.encode ≠ [] := by
  cases t <;> nofun

theorem DerTree.raw_node (t : DerTree) : t.node.raw = t.encode := by
  cases t <;> rfl

/-- What the reader of one element accepts, the loop over a content accepts one behind the other. -/
theorem readAll_iff {read : Bytes → Except DerError (DerNode × Bytes)} {Q : DerTree → Prop}
    (hread : ∀ {buf node next}, read buf = .ok (node, next) ↔
      ∃ t, Q t ∧ buf = t.encode ++ next ∧ node = t.node)
    {bound : Nat} {content : Bytes} {nodes : List DerNode} (hbound : content.length ≤ bound) :
    readAll read bound content = .ok nodes ↔
      ∃ ts, (∀ t ∈ ts, Q t) ∧ content = (DerTree.encodeAll ts).flatten ∧
        nodes = DerTree.nodes ts := by
  induction bound generalizing content nodes with
  | zero =>
    obtain rfl := List.length_eq_zero_iff.mp (Nat.le_zero.mp hbound)
    rw [readAll]
    constructor
    · intro h
      cases h
      exact ⟨[], by simp, rfl, rfl⟩
    · rintro ⟨ts, -, hcontent, rfl⟩
      cases ts with
      | nil => rfl
      | cons t ts => exact absurd (List.append_eq_nil_iff.mp hcontent.symm).1 t.encode_ne_nil
  | succ bound ih =>
    cases content with
    | nil =>
      rw [readAll]
      constructor
      · intro h
        cases h
        exact ⟨[], by simp, rfl, rfl⟩
      · rintro ⟨ts, -, hcontent, rfl⟩
        cases ts with
        | nil => rfl
        | cons t ts => exact absurd (List.append_eq_nil_iff.mp hcontent.symm).1 t.encode_ne_nil
    | cons b content =>
      have hshrinks : ∀ (t : DerTree) (next : Bytes), b :: content = t.encode ++ next →
          next.length ≤ bound := by
        intro t next hsplit
        have hlen := congrArg List.length hsplit
        have hpos := List.length_pos_iff.mpr t.encode_ne_nil
        rw [List.length_append] at hlen
        omega
      rw [readAll, bind_eq_ok]
      constructor
      · rintro ⟨⟨node, next⟩, hone, h⟩
        obtain ⟨nodes', hrest, h⟩ := bind_eq_ok.mp h
        cases h
        obtain ⟨t, ht, hsplit, rfl⟩ := hread.mp hone
        obtain ⟨ts, hts, rfl, rfl⟩ := (ih (hshrinks t next hsplit)).mp hrest
        exact ⟨t :: ts, List.forall_mem_cons.mpr ⟨ht, hts⟩, hsplit, rfl⟩
      · rintro ⟨ts, hts, hcontent, rfl⟩
        cases ts with
        | nil => cases hcontent
        | cons t ts =>
          obtain ⟨ht, hts⟩ := List.forall_mem_cons.mp hts
          rw [DerTree.encodeAll, List.flatten_cons] at hcontent
          refine ⟨(t.node, (DerTree.encodeAll ts).flatten), hread.mpr ⟨t, ht, hcontent, rfl⟩, ?_⟩
          dsimp only
          rw [(ih (hshrinks t _ hcontent)).mpr ⟨ts, hts, rfl, rfl⟩]
          rfl

/-- The header of an element is read back, and its content is split off. -/
theorem readOne_tlv (levels : Nat) {tag : UInt8} {content next : Bytes}
    (htag : isMultiByte tag = false) (hlen : content.length < 2 ^ 32) :
    readOne (levels + 1) (tlv tag content ++ next) =
      readContent (readOne levels) (isConstructed tag) content >>= fun children =>
        .ok (.mk tag (tlv tag content) content (isConstructed tag) children, next) := by
  obtain ⟨first, rest, hheader⟩ :
      ∃ first rest, lengthOctets content.length ++ (content ++ next) = first :: rest := by
    rw [lengthOctets]
    split_ifs <;> exact ⟨_, _, rfl⟩
  have hbuf : tlv tag content ++ next = tag :: first :: rest := by
    rw [tlv, List.cons_append, List.cons_append, List.append_assoc, hheader]
  have hlength : readLength first rest = .ok (content.length, content ++ next) :=
    readLength_iff.mpr ⟨hlen, hheader.symm⟩
  have hraw : (tag :: first :: rest).take ((tag :: first :: rest).length - next.length) =
      tlv tag content := by
    rw [← hbuf, List.length_append, Nat.add_sub_cancel, List.take_left' rfl]
  rw [hbuf, readOne]
  dsimp only
  rw [htag, if_neg Bool.false_ne_true, hlength, ok_bind]
  dsimp only
  rw [if_neg (by rw [List.length_append]; omega), List.take_left' rfl, List.drop_left' rfl, hraw]

/-- The reader accepts what is written of the trees that fit, within its levels, and nothing else. -/
theorem readOne_iff {levels : Nat} {buf next : Bytes} {node : DerNode} :
    readOne levels buf = .ok (node, next) ↔
      ∃ t : DerTree, (t.Fits ∧ t.nesting < levels) ∧ buf = t.encode ++ next ∧ node = t.node := by
  induction levels generalizing buf next node with
  | zero =>
    constructor
    · intro h
      cases h
    · rintro ⟨t, ⟨-, hlevels⟩, -⟩
      exact absurd hlevels (Nat.not_lt_zero _)
  | succ levels ih =>
    have hall : ∀ {content : Bytes} {nodes : List DerNode},
        readAll (readOne levels) content.length content = .ok nodes ↔
          ∃ ts : List DerTree, (∀ t ∈ ts, t.Fits ∧ t.nesting < levels) ∧
            content = (DerTree.encodeAll ts).flatten ∧ nodes = DerTree.nodes ts :=
      readAll_iff ih le_rfl
    constructor
    · intro h
      rcases buf with _ | ⟨tag, _ | ⟨first, rest⟩⟩
      · cases h
      · cases h
      · rw [readOne] at h
        split_ifs at h with htag
        obtain ⟨⟨len, rest'⟩, hlength, h⟩ := bind_eq_ok.mp h
        obtain ⟨hlen, hheader⟩ := readLength_iff.mp hlength
        dsimp only at h
        split_ifs at h with hshort
        obtain ⟨nodes, hnodes, h⟩ := bind_eq_ok.mp h
        cases h
        have htake : (rest'.take len).length = len := by
          rw [List.length_take]
          omega
        have hbuf : tag :: first :: rest = tlv tag (rest'.take len) ++ rest'.drop len := by
          rw [tlv, htake, List.cons_append, List.cons_append, List.append_assoc,
            List.take_append_drop, hheader]
        have hraw : (tag :: first :: rest).take
            ((tag :: first :: rest).length - (rest'.drop len).length) =
              tlv tag (rest'.take len) := by
          rw [hbuf, List.length_append, Nat.add_sub_cancel, List.take_left' rfl]
        rw [Bool.not_eq_true] at htag
        by_cases hconstructed : isConstructed tag = true
        · rw [readContent, if_pos hconstructed] at hnodes
          obtain ⟨ts, hts, hcontent, rfl⟩ := hall.mp hnodes
          refine ⟨.branch tag ts, ⟨.branch htag hconstructed ?_ fun t ht => (hts t ht).1, ?_⟩, ?_, ?_⟩
          · rw [← hcontent, htake]
            exact hlen
          · exact Nat.lt_succ_of_le (nestingAll_le_iff.mpr fun t ht => (hts t ht).2)
          · rw [DerTree.encode, ← hcontent, hbuf]
          · rw [DerTree.node, ← hcontent, hraw, hconstructed]
        · rw [Bool.not_eq_true] at hconstructed
          rw [hconstructed] at hnodes
          cases hnodes
          refine ⟨.leaf tag (rest'.take len), ⟨.leaf htag hconstructed ?_, Nat.succ_pos _⟩, ?_, ?_⟩
          · rw [htake]
            exact hlen
          · rw [DerTree.encode, hbuf]
          · rw [DerTree.node, hraw, hconstructed]
    · rintro ⟨t, ⟨hfits, hlevels⟩, rfl, rfl⟩
      cases hfits with
      | leaf htag hconstructed hlen =>
        rw [DerTree.encode, readOne_tlv levels htag hlen, hconstructed]
        rfl
      | branch htag hconstructed hlen hchildren =>
        have hnodes := hall.mpr ⟨_, fun t ht => ⟨hchildren t ht, ?_⟩, rfl, rfl⟩
        · rw [DerTree.encode, readOne_tlv levels htag hlen, readContent, if_pos hconstructed, hnodes,
            ok_bind, hconstructed]
          rfl
        · exact nestingAll_le_iff.mp (Nat.le_of_lt_succ hlevels) t ht

theorem parseDer_iff {buf : Bytes} {node : DerNode} :
    parseDer buf = .ok node ↔
      ∃ t : DerTree, t.Fits ∧ t.nesting ≤ MAX_DEPTH ∧ t.encode = buf ∧ t.node = node := by
  rw [parseDer, bind_eq_ok]
  constructor
  · rintro ⟨⟨node', next⟩, hone, h⟩
    dsimp only at h
    split_ifs at h with hnext
    cases h
    obtain ⟨t, ⟨hfits, hlevels⟩, hbuf, hnode⟩ := readOne_iff.mp hone
    rw [not_not.mp hnext, List.append_nil] at hbuf
    exact ⟨t, hfits, Nat.le_of_lt_succ hlevels, hbuf.symm, hnode.symm⟩
  · rintro ⟨t, hfits, hlevels, hbuf, hnode⟩
    refine ⟨(node, []), readOne_iff.mpr ⟨t, ⟨hfits, Nat.lt_succ_of_le hlevels⟩, ?_, hnode.symm⟩, rfl⟩
    rw [List.append_nil, hbuf]

/-- The element of a tree that fits re-encodes to its bytes, at every depth. -/
theorem DerTree.Fits.reencodes {t : DerTree} (h : t.Fits) : t.node.Reencodes := by
  induction h with
  | leaf htag hconstructed hlen => exact .mk rfl nofun (fun _ => rfl) (by simp)
  | @branch tag children htag hconstructed hlen hchildren ih =>
    refine .mk rfl (fun _ => ?_) nofun ?_
    · rw [nodes_eq, encodeAll_eq, List.map_map]
      exact congrArg List.flatten (List.map_congr_left fun t _ => t.raw_node.symm)
    · intro c hc
      rw [nodes_eq] at hc
      obtain ⟨t, ht, rfl⟩ := List.mem_map.mp hc
      exact ih t ht

/-- The reader accepts exactly the canonical encodings: what it returns re-encodes to the input at
every depth, every tree that fits is read back from what is written of it, and on everything else
it throws its own error. -/
theorem parseDer_exact (b : Bytes) :
    (∀ node, parseDer b = .ok node → node.raw = b ∧ node.Reencodes) ∧
    (∀ t : DerTree, t.Fits → t.nesting ≤ MAX_DEPTH → parseDer t.encode = .ok t.node) ∧
    ((¬∃ t : DerTree, t.Fits ∧ t.nesting ≤ MAX_DEPTH ∧ t.encode = b) →
      ∃ e : DerError, parseDer b = .error e) := by
  refine ⟨?_, ?_, ?_⟩
  · intro node h
    obtain ⟨t, hfits, -, rfl, rfl⟩ := parseDer_iff.mp h
    exact ⟨t.raw_node, hfits.reencodes⟩
  · intro t hfits hlevels
    exact parseDer_iff.mpr ⟨t, hfits, hlevels, rfl, rfl⟩
  · intro hnone
    cases h : parseDer b with
    | error e => exact ⟨e, rfl⟩
    | ok node =>
      obtain ⟨t, hfits, hlevels, hbuf, -⟩ := parseDer_iff.mp h
      exact absurd ⟨t, hfits, hlevels, hbuf⟩ hnone

theorem parseDer_exact_sequence :
    ∃ node, parseDer (derSeq [tlv TAG.INTEGER [5], derSet []]) = .ok node ∧
      node.raw = derSeq [tlv TAG.INTEGER [5], derSet []] ∧ node.Reencodes := by
  obtain ⟨hread, hwritten, -⟩ := parseDer_exact (derSeq [tlv TAG.INTEGER [5], derSet []])
  have hfits : (DerTree.branch TAG.SEQUENCE [.leaf TAG.INTEGER [5], .branch TAG.SET []]).Fits := by
    refine .branch rfl rfl (by decide) ?_
    intro t ht
    rcases List.mem_cons.mp ht with rfl | ht
    · exact .leaf rfl rfl (by decide)
    · rw [List.mem_singleton.mp ht]
      exact .branch rfl rfl (by decide) (by simp)
  have hparse := hwritten _ hfits (by decide)
  exact ⟨_, hparse, hread _ hparse⟩

end CoolSdk
