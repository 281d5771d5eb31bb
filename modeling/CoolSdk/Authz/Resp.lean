import CoolSdk.Core.Fallible
import CoolSdk.Core.Stream
import CoolSdk.Runtime.Number
import CoolSdk.Wire.Codec

/-!
# The Redis serialization protocol

A reader of one reply at the front of a buffer, and what commands and replies are on the wire. A
reply is a line, a counted string, or a counted sequence of replies; the reader starts over from
the front of the buffer as long as a reply is incomplete.
-/

namespace CoolSdk

/-- The runtime's text decoder and number parser. -/
structure RespHost where
  /-- `buf.toString("utf8")`. -/
  text : Bytes → String
  /-- `Number(text)`. -/
  number : String → JsNumber

/-- What decoding and parsing do with text that was encoded and integers that were written. -/
structure RespLaws (H : RespHost) : Prop where
  text_utf8 : ∀ s, H.text (utf8 s) = s
  number_toString : ∀ n : Int, n.natAbs < 2 ^ 53 → H.number (toString n) = .ofInt n

/-- A reply as the client hands it on. -/
inductive Reply
  | text (s : String)
  | number (n : JsNumber)
  | null
  | error (message : String)
  | array (items : List Reply)

inductive RespError
  /-- The first byte of a line is that of no type. -/
  | unexpectedType (type : UInt8)
  /-- A string's length is not an integer. No server writes one; the source goes on at a position
  that is none, until no command is left to answer. -/
  | irregularLength
  deriving DecidableEq, Repr

/-- `JSON.stringify` of the character of a byte. -/
def stringifyByte (b : UInt8) : String :=
  let body :=
    if b = 8 then "\\b"
    else if b = 9 then "\\t"
    else if b = 10 then "\\n"
    else if b = 12 then "\\f"
    else if b = 13 then "\\r"
    else if b = 34 then "\\\""
    else if b = 92 then "\\\\"
    else if b < 32 then "\\u00" ++ toHex [b]
    else String.singleton (Char.ofNat b.toNat)
  "\"" ++ body ++ "\""

def RespError.message : RespError → String
  | .unexpectedType type => "unexpected RESP type " ++ stringifyByte type
  | .irregularLength => "unsolicited redis reply"

/-! ## Reading -/

/-- The first line and what is behind its end. -/
def splitLine : Bytes → Option (Bytes × Bytes)
  | [] => none
  | [_] => none
  | b :: c :: rest =>
    if b = 13 ∧ c = 10 then some ([], rest)
    else (splitLine (c :: rest)).map fun (line, rest) => (b :: line, rest)

/-- A number as the length of a string: nothing for infinity, which no buffer reaches. -/
def stringLength : JsNumber → Except RespError (Option Nat)
  | .infinity => .ok none
  | .negZero => .ok (some 0)
  | .finite q => if q.den = 1 then .ok (some q.num.toNat) else .error .irregularLength
  | _ => .error .irregularLength

/-- How often `for (let k = 0; k < n; k++)` passes, where more than a limit is as good as that. -/
def passes (limit : Nat) : JsNumber → Nat
  | .infinity => limit
  | .finite q => q.ceil.toNat
  | _ => 0

/-- Go on behind what is complete. -/
def andRead {α β ε : Type} (x : Except ε (Option α)) (f : α → Except ε (Option β)) :
    Except ε (Option β) :=
  match x with
  | .error e => .error e
  | .ok none => .ok none
  | .ok (some a) => f a

/-- So many replies, one behind the other. -/
def readItems (read : Bytes → Except RespError (Option (Reply × Bytes))) :
    Nat → Bytes → Except RespError (Option (List Reply × Bytes))
  | 0, buf => .ok (some ([], buf))
  | n + 1, buf =>
    andRead (read buf) fun (item, next) =>
      andRead (readItems read n next) fun (items, last) => .ok (some (item :: items, last))

section

variable (H : RespHost)

/-- A reply from its first line and what is behind it. A line without a type has the carriage
return in its place. -/
def readTyped (read : Bytes → Except RespError (Option (Reply × Bytes))) (line rest : Bytes) :
    Except RespError (Option (Reply × Bytes)) :=
  match line with
  | [] => .error (.unexpectedType 13)
  | type :: line =>
    let n := H.number (H.text line)
    -- `+`, `-`, `:`, `$` and `*`
    if type = 43 then .ok (some (.text (H.text line), rest))
    else if type = 45 then .ok (some (.error (H.text line), rest))
    else if type = 58 then .ok (some (.number n, rest))
    else if type = 36 then
      if n.lt (.ofInt 0) then .ok (some (.null, rest))
      else
        andRead (stringLength n) fun n =>
          if rest.length < n + 2 then .ok none
          else .ok (some (.text (H.text (rest.take n)), rest.drop (n + 2)))
    else if type = 42 then
      if n.lt (.ofInt 0) then .ok (some (.null, rest))
      else
        andRead (readItems read (passes (rest.length + 1) n) rest) fun (items, next) =>
          .ok (some (.array items, next))
    else .error (.unexpectedType type)

/-- `parseReply` within so many levels; every level takes bytes off the buffer. -/
def parseWithin : Nat → Bytes → Except RespError (Option (Reply × Bytes))
  | 0, _ => .ok none
  | levels + 1, buf =>
    match splitLine buf with
    | none => .ok none
    | some (line, rest) => readTyped H (parseWithin levels) line rest

/-- The reply at the front of a buffer and what is behind it, nothing where it is incomplete. -/
def parseReply (buf : Bytes) : Except RespError (Option (Reply × Bytes)) :=
  parseWithin H buf.length buf

end

/-! ## Writing -/

def CRLF : Bytes := [13, 10]

/-- A line of a type. -/
def respLine (type : UInt8) (line : Bytes) : Bytes := type :: line ++ CRLF

/-- A string behind its length. -/
def bulkString (data : Bytes) : Bytes :=
  respLine 36 (utf8 (toString data.length)) ++ data ++ CRLF

/-- A reply of a server. -/
inductive Resp
  | simple (line : Bytes)
  | error (line : Bytes)
  | integer (n : Int)
  | bulk (data : Bytes)
  | nullBulk
  | nullArray
  | array (items : List Resp)

mutual

/-- A reply on the wire. -/
def Resp.encode : Resp → Bytes
  | .simple line => respLine 43 line
  | .error line => respLine 45 line
  | .integer n => respLine 58 (utf8 (toString n))
  | .bulk data => bulkString data
  | .nullBulk => respLine 36 (utf8 "-1")
  | .nullArray => respLine 42 (utf8 "-1")
  | .array items => respLine 42 (utf8 (toString items.length)) ++ Resp.encodeAll items

def Resp.encodeAll : List Resp → Bytes
  | [] => []
  | r :: rs => r.encode ++ Resp.encodeAll rs

end

mutual

/-- What a client makes of a reply. -/
def Resp.value (H : RespHost) : Resp → Reply
  | .simple line => .text (H.text line)
  | .error line => .error (H.text line)
  | .integer n => .number (H.number (toString n))
  | .bulk data => .text (H.text data)
  | .nullBulk | .nullArray => .null
  | .array items => .array (Resp.values H items)

def Resp.values (H : RespHost) : List Resp → List Reply
  | [] => []
  | r :: rs => r.value H :: Resp.values H rs

end

/-- Lines hold no line ends, and lengths are those that a runtime can hold. -/
inductive Resp.WellFormed : Resp → Prop
  | simple {line : Bytes} (h : 13 ∉ line ∧ 10 ∉ line) : WellFormed (.simple line)
  | error {line : Bytes} (h : 13 ∉ line ∧ 10 ∉ line) : WellFormed (.error line)
  | integer (n : Int) : WellFormed (.integer n)
  | bulk {data : Bytes} (h : data.length < 2 ^ 53) : WellFormed (.bulk data)
  | nullBulk : WellFormed .nullBulk
  | nullArray : WellFormed .nullArray
  | array {items : List Resp} (hlen : items.length < 2 ^ 53) (h : ∀ r ∈ items, WellFormed r) :
      WellFormed (.array items)

variable {H : RespHost} {b c buf line rest next : Bytes} {v : Reply} {e : RespError}

/-! ## Lines -/

theorem splitLine_split (h : splitLine b = some (line, rest)) : b = line ++ CRLF ++ rest := by
  induction b generalizing line with
  | nil => cases h
  | cons x b ih =>
    cases b with
    | nil => cases h
    | cons y b =>
      rw [splitLine] at h
      split_ifs at h with hend
      · cases h
        rw [hend.1, hend.2]
        rfl
      · obtain ⟨⟨line', rest'⟩, hline, hpair⟩ := Option.map_eq_some_iff.mp h
        cases hpair
        rw [ih hline]
        rfl

theorem splitLine_append (h : splitLine b = some (line, rest)) (c : Bytes) :
    splitLine (b ++ c) = some (line, rest ++ c) := by
  induction b generalizing line with
  | nil => cases h
  | cons x b ih =>
    cases b with
    | nil => cases h
    | cons y b =>
      rw [splitLine] at h
      rw [List.cons_append, List.cons_append, splitLine]
      split_ifs at h ⊢ with hend
      · cases h
        rfl
      · obtain ⟨⟨line', rest'⟩, hline, hpair⟩ := Option.map_eq_some_iff.mp h
        cases hpair
        rw [← List.cons_append, ih hline]
        rfl

/-- A line without a carriage return ends where its end is written. -/
theorem splitLine_line (h : (13 : UInt8) ∉ line) (rest : Bytes) :
    splitLine (line ++ CRLF ++ rest) = some (line, rest) := by
  induction line with
  | nil => rfl
  | cons x line ih =>
    rw [List.mem_cons, not_or] at h
    have hx : ¬(x = 13 ∧ (line ++ CRLF ++ rest).head? = some 10) := fun hend => h.1 hend.1.symm
    obtain ⟨y, tail, htail⟩ : ∃ y tail, line ++ CRLF ++ rest = y :: tail := by
      cases line with
      | nil => exact ⟨_, _, rfl⟩
      | cons y line => exact ⟨_, _, rfl⟩
    rw [htail, List.head?_cons, Option.some.injEq] at hx
    rw [List.cons_append, List.cons_append, htail, splitLine, if_neg hx, ← htail, ih h.2]
    rfl

/-- A byte below 128 of a character's encoding is the character. -/
private theorem toNat_eq_of_mem_utf8EncodeChar {c : Char} {x : UInt8}
    (h : x ∈ String.utf8EncodeChar c) (hx : x.toNat < 128) : c.toNat = x.toNat := by
  have hbyte : ∀ n : Nat, x = UInt8.ofNat n → x.toNat = n % 256 := by
    intro n hn
    rw [hn, UInt8.toNat_ofNat']
  rw [Char.toNat]
  unfold String.utf8EncodeChar at h
  generalize c.val.toNat = v at h ⊢
  dsimp only at h
  split_ifs at h with h1 h2 h3
  all_goals simp only [List.mem_cons, List.not_mem_nil, or_false] at h
  · rw [hbyte _ h]
    omega
  · rcases h with h | h <;> have := hbyte _ h <;> omega
  · rcases h with h | h | h <;> have := hbyte _ h <;> omega
  · rcases h with h | h | h | h <;> have := hbyte _ h <;> omega

private theorem cr_not_mem_utf8 {cs : List Char} (h : '\r' ∉ cs) :
    (13 : UInt8) ∉ utf8 (String.ofList cs) := by
  intro hmem
  rw [utf8_ofList, List.mem_flatMap] at hmem
  obtain ⟨c, hc, hbyte⟩ := hmem
  have hcr : c = '\r' := Char.toNat_inj.mp (toNat_eq_of_mem_utf8EncodeChar hbyte (by decide))
  exact h (hcr ▸ hc)

private theorem cr_not_mem_toDigits (k : Nat) : '\r' ∉ Nat.toDigits 10 k := by
  intro hk
  have hdigit := Nat.isDigit_of_mem_toDigits (by omega) (by omega) hk
  revert hdigit
  decide

/-- The text of an integer holds no carriage return. -/
theorem cr_not_mem_toString (n : Int) : (13 : UInt8) ∉ utf8 (toString n) := by
  cases n with
  | ofNat k => exact cr_not_mem_utf8 (cr_not_mem_toDigits k)
  | negSucc k =>
    have htext : toString (Int.negSucc k) = String.ofList ('-' :: Nat.toDigits 10 (k + 1)) := by
      rw [String.ofList_cons]
      rfl
    rw [htext]
    apply cr_not_mem_utf8
    rw [List.mem_cons, not_or]
    exact ⟨by decide, cr_not_mem_toDigits _⟩

/-! ## The reader -/

theorem andRead_eq_some {α β ε : Type} {x : Except ε (Option α)} {f : α → Except ε (Option β)}
    {b : β} : andRead x f = .ok (some b) ↔ ∃ a, x = .ok (some a) ∧ f a = .ok (some b) := by
  rcases x with e | _ | a <;> simp [andRead]

theorem andRead_eq_error {α β ε : Type} {x : Except ε (Option α)} {f : α → Except ε (Option β)}
    {e : ε} : andRead x f = .error e ↔ x = .error e ∨ ∃ a, x = .ok (some a) ∧ f a = .error e := by
  rcases x with e | _ | a <;> simp [andRead]

theorem andRead_some {α β ε : Type} (a : α) (f : α → Except ε (Option β)) :
    andRead (.ok (some a)) f = f a := rfl

/-- What is read takes at least a byte off the front. -/
def Suffixes (read : Bytes → Except RespError (Option (Reply × Bytes))) : Prop :=
  ∀ {b rest v}, read b = .ok (some (v, rest)) → ∃ taken, taken ≠ [] ∧ b = taken ++ rest

variable {read read' : Bytes → Except RespError (Option (Reply × Bytes))} {n : Nat}
  {items : List Reply}

/-- Every reply of a sequence takes at least a byte off the front. -/
theorem readItems_suffix (hread : Suffixes read) (h : readItems read n b = .ok (some (items, rest))) :
    ∃ taken, n ≤ taken.length ∧ b = taken ++ rest := by
  induction n generalizing b items with
  | zero =>
    cases h
    exact ⟨[], le_rfl, rfl⟩
  | succ n ih =>
    obtain ⟨⟨item, next⟩, hone, h⟩ := andRead_eq_some.mp h
    obtain ⟨⟨items', last⟩, hmore, h⟩ := andRead_eq_some.mp h
    cases h
    obtain ⟨taken, hne, rfl⟩ := hread hone
    obtain ⟨taken', hlen, rfl⟩ := ih hmore
    refine ⟨taken ++ taken', ?_, (List.append_assoc _ _ _).symm⟩
    have hpos := List.length_pos_iff.mpr hne
    rw [List.length_append]
    omega

theorem readItems_congr (hread : Suffixes read)
    (h : ∀ buf : Bytes, buf.length ≤ b.length → read buf = read' buf) :
    readItems read n b = readItems read' n b := by
  induction n generalizing b with
  | zero => rfl
  | succ n ih =>
    rw [readItems, readItems, ← h b le_rfl]
    rcases hone : read b with e | _ | ⟨item, next⟩
    · rfl
    · rfl
    · obtain ⟨taken, -, rfl⟩ := hread hone
      rw [andRead_some, andRead_some]
      dsimp only
      rw [ih fun buf hbuf => h buf (by rw [List.length_append]; omega)]

theorem readTyped_congr (hread : Suffixes read)
    (h : ∀ buf : Bytes, buf.length ≤ rest.length → read buf = read' buf) :
    readTyped H read line rest = readTyped H read' line rest := by
  cases line with
  | nil => rfl
  | cons type line =>
    rw [readTyped, readTyped]
    dsimp only
    rw [readItems_congr hread h]

/-- What is behind a reply is behind its first line. -/
theorem readTyped_suffix (hread : Suffixes read)
    (h : readTyped H read line rest = .ok (some (v, next))) :
    line ≠ [] ∧ ∃ taken, rest = taken ++ next := by
  cases line with
  | nil => cases h
  | cons type line =>
    refine ⟨List.cons_ne_nil _ _, ?_⟩
    rw [readTyped] at h
    dsimp only at h
    split_ifs at h
    · cases h
      exact ⟨[], rfl⟩
    · cases h
      exact ⟨[], rfl⟩
    · cases h
      exact ⟨[], rfl⟩
    · cases h
      exact ⟨[], rfl⟩
    · obtain ⟨n, -, h⟩ := andRead_eq_some.mp h
      split_ifs at h
      · cases h
      · obtain ⟨-, hnext⟩ := Prod.mk.inj (Option.some.inj (Except.ok.inj h))
        rw [← hnext]
        exact ⟨rest.take (n + 2), (List.take_append_drop (n + 2) rest).symm⟩
    · cases h
      exact ⟨[], rfl⟩
    · obtain ⟨⟨items, last⟩, hitems, h⟩ := andRead_eq_some.mp h
      cases h
      obtain ⟨taken, -, htaken⟩ := readItems_suffix hread hitems
      exact ⟨taken, htaken⟩

theorem suffixes_parseWithin (H : RespHost) (levels : Nat) : Suffixes (parseWithin H levels) := by
  induction levels with
  | zero => exact fun h => nomatch h
  | succ levels ih =>
    intro b rest v h
    rw [parseWithin] at h
    cases hline : splitLine b with
    | none =>
      rw [hline] at h
      cases h
    | some pair =>
      obtain ⟨line, behind⟩ := pair
      rw [hline] at h
      obtain ⟨-, taken, rfl⟩ := readTyped_suffix ih h
      rw [splitLine_split hline]
      exact ⟨line ++ CRLF ++ taken, by simp [CRLF], (List.append_assoc _ _ _).symm⟩

/-- A buffer does not nest deeper than it is long. -/
theorem parseWithin_eq {levels levels' : Nat} (h : b.length ≤ levels) (h' : b.length ≤ levels') :
    parseWithin H levels b = parseWithin H levels' b := by
  induction levels generalizing b levels' with
  | zero =>
    obtain rfl := List.length_eq_zero_iff.mp (Nat.le_zero.mp h)
    cases levels' <;> rfl
  | succ levels ih =>
    cases levels' with
    | zero =>
      obtain rfl := List.length_eq_zero_iff.mp (Nat.le_zero.mp h')
      rfl
    | succ levels' =>
      rw [parseWithin, parseWithin]
      cases hline : splitLine b with
      | none => rfl
      | some pair =>
        obtain ⟨line, behind⟩ := pair
        have hlen := congrArg List.length (splitLine_split hline)
        simp only [List.length_append, CRLF, List.length_cons, List.length_nil] at hlen
        exact readTyped_congr (suffixes_parseWithin H levels) fun buf hbuf =>
          ih (by omega) (by omega)

/-- The reader reads the first line, and what it announces with itself. -/
theorem parseReply_eq (H : RespHost) (b : Bytes) :
    parseReply H b = match splitLine b with
      | none => .ok none
      | some (line, rest) => readTyped H (parseReply H) line rest := by
  have hstep : parseReply H b = parseWithin H (b.length + 1) b :=
    parseWithin_eq le_rfl (Nat.le_succ _)
  rw [hstep, parseWithin]
  cases hline : splitLine b with
  | none => rfl
  | some pair =>
    obtain ⟨line, behind⟩ := pair
    have hlen := congrArg List.length (splitLine_split hline)
    simp only [List.length_append, CRLF, List.length_cons, List.length_nil] at hlen
    exact readTyped_congr (suffixes_parseWithin H b.length) fun buf hbuf =>
      parseWithin_eq (by omega) le_rfl

theorem suffixes_parseReply (H : RespHost) : Suffixes (parseReply H) := by
  intro b rest v h
  exact suffixes_parseWithin H b.length h

/-- Reading a reply shortens the buffer. -/
theorem parseReply_length_lt (h : parseReply H b = .ok (some (v, rest))) :
    rest.length < b.length := by
  obtain ⟨taken, hne, rfl⟩ := suffixes_parseReply H h
  have hpos := List.length_pos_iff.mpr hne
  rw [List.length_append]
  omega

/-! ## Growing buffers -/

/-- What a reader makes of a buffer that is not too long stays so as the buffer grows. -/
structure Grows (read : Bytes → Except RespError (Option (Reply × Bytes))) (limit : Nat) :
    Prop where
  message {b rest : Bytes} {v : Reply} (c : Bytes) :
    b.length ≤ limit → read b = .ok (some (v, rest)) → read (b ++ c) = .ok (some (v, rest ++ c))
  failure {b : Bytes} {e : RespError} (c : Bytes) :
    b.length ≤ limit → read b = .error e → read (b ++ c) = .error e

theorem Grows.mono {limit limit' : Nat} (h : Grows read limit) (hle : limit' ≤ limit) :
    Grows read limit' where
  message c hb := h.message c (hb.trans hle)
  failure c hb := h.failure c (hb.trans hle)

theorem readItems_message (hread : Suffixes read) (hgrows : Grows read b.length)
    (h : readItems read n b = .ok (some (items, rest))) (c : Bytes) :
    readItems read n (b ++ c) = .ok (some (items, rest ++ c)) := by
  induction n generalizing b items with
  | zero =>
    cases h
    rfl
  | succ n ih =>
    obtain ⟨⟨item, next⟩, hone, h⟩ := andRead_eq_some.mp h
    obtain ⟨⟨items', last⟩, hmore, h⟩ := andRead_eq_some.mp h
    cases h
    obtain ⟨taken, -, hb⟩ := hread hone
    have hle : next.length ≤ b.length := by
      rw [hb, List.length_append]
      omega
    rw [readItems, hgrows.message c le_rfl hone, andRead_some]
    dsimp only
    rw [ih (hgrows.mono hle) hmore]
    rfl

/-- Reading more replies fails where reading fewer does. -/
theorem readItems_failure (hread : Suffixes read) (hgrows : Grows read b.length) {n' : Nat}
    (hn : n ≤ n') (h : readItems read n b = .error e) (c : Bytes) :
    readItems read n' (b ++ c) = .error e := by
  induction n generalizing b n' with
  | zero => cases h
  | succ n ih =>
    obtain ⟨n', rfl⟩ := Nat.exists_eq_add_of_le hn
    rw [Nat.add_right_comm, readItems]
    rcases andRead_eq_error.mp h with hone | ⟨⟨item, next⟩, hone, h⟩
    · rw [hgrows.failure c le_rfl hone]
      rfl
    · obtain ⟨taken, -, hb⟩ := hread hone
      have hle : next.length ≤ b.length := by
        rw [hb, List.length_append]
        omega
      rw [hgrows.message c le_rfl hone, andRead_some]
      dsimp only
      rcases andRead_eq_error.mp h with hmore | ⟨⟨items', last⟩, -, h⟩
      · rw [ih (hgrows.mono hle) (Nat.le_add_right n n') hmore]
        rfl
      · cases h

/-- Only an endless sequence depends on the limit, and grows with it. -/
theorem passes_mono {limit limit' : Nat} (h : limit ≤ limit') (n : JsNumber) :
    passes limit n ≤ passes limit' n := by
  cases n with
  | infinity => exact h
  | _ => exact le_rfl

theorem passes_eq {limit : Nat} {n : JsNumber} (h : passes limit n < limit) (limit' : Nat) :
    passes limit' n = passes limit n := by
  cases n with
  | infinity => exact (lt_irrefl _ h).elim
  | _ => rfl

theorem readTyped_message (hread : Suffixes read) (hgrows : Grows read rest.length)
    (h : readTyped H read line rest = .ok (some (v, next))) (c : Bytes) :
    readTyped H read line (rest ++ c) = .ok (some (v, next ++ c)) := by
  cases line with
  | nil => cases h
  | cons type line =>
    rw [readTyped] at h ⊢
    dsimp only at h ⊢
    split_ifs at h ⊢
    · cases h
      rfl
    · cases h
      rfl
    · cases h
      rfl
    · cases h
      rfl
    · obtain ⟨n, hn, h⟩ := andRead_eq_some.mp h
      split_ifs at h with hlen
      · cases h
      · obtain ⟨rfl, rfl⟩ := Prod.mk.inj (Option.some.inj (Except.ok.inj h))
        rw [not_lt] at hlen
        rw [hn, andRead_some, if_neg (by rw [List.length_append]; omega),
          List.take_append_of_le_length (by omega), List.drop_append_of_le_length hlen]
    · cases h
      rfl
    · obtain ⟨⟨items, last⟩, hitems, h⟩ := andRead_eq_some.mp h
      cases h
      obtain ⟨taken, hlen, htaken⟩ := readItems_suffix hread hitems
      have hle : taken.length ≤ rest.length := by
        rw [htaken, List.length_append]
        omega
      have hcount := passes_eq (Nat.lt_succ_of_le (hlen.trans hle)) ((rest ++ c).length + 1)
      rw [hcount, readItems_message hread hgrows hitems]
      rfl

theorem readTyped_failure (hread : Suffixes read) (hgrows : Grows read rest.length)
    (h : readTyped H read line rest = .error e) (c : Bytes) :
    readTyped H read line (rest ++ c) = .error e := by
  cases line with
  | nil => exact h
  | cons type line =>
    rw [readTyped] at h ⊢
    dsimp only at h ⊢
    split_ifs at h ⊢
    · rcases andRead_eq_error.mp h with hn | ⟨n, -, h⟩
      · rw [hn]
        rfl
      · split_ifs at h
    · rcases andRead_eq_error.mp h with hitems | ⟨⟨items, last⟩, -, h⟩
      · rw [readItems_failure hread hgrows (passes_mono _ _) hitems]
        · rfl
        · rw [List.length_append]
          omega
      · cases h
    · exact h

/-- **More bytes do not change what was read**, and do not mend what failed. -/
theorem grows_parseReply (H : RespHost) (limit : Nat) : Grows (parseReply H) limit := by
  induction limit with
  | zero =>
    constructor
    · intro b rest v c hb h
      obtain rfl := List.length_eq_zero_iff.mp (Nat.le_zero.mp hb)
      cases h
    · intro b e c hb h
      obtain rfl := List.length_eq_zero_iff.mp (Nat.le_zero.mp hb)
      cases h
  | succ limit ih =>
    have hstep : ∀ {b line rest : Bytes}, b.length ≤ limit + 1 →
        splitLine b = some (line, rest) → Grows (parseReply H) rest.length := by
      intro b line rest hb hline
      have hlen := congrArg List.length (splitLine_split hline)
      simp only [List.length_append, CRLF, List.length_cons, List.length_nil] at hlen
      exact ih.mono (by omega)
    constructor
    · intro b rest v c hb h
      rw [parseReply_eq] at h ⊢
      cases hline : splitLine b with
      | none =>
        rw [hline] at h
        cases h
      | some pair =>
        obtain ⟨line, behind⟩ := pair
        rw [hline] at h
        rw [splitLine_append hline]
        exact readTyped_message (suffixes_parseReply H) (hstep hb hline) h c
    · intro b e c hb h
      rw [parseReply_eq] at h ⊢
      cases hline : splitLine b with
      | none =>
        rw [hline] at h
        cases h
      | some pair =>
        obtain ⟨line, behind⟩ := pair
        rw [hline] at h
        rw [splitLine_append hline]
        exact readTyped_failure (suffixes_parseReply H) (hstep hb hline) h c

/-! ## Reading what was written -/

section

variable (laws : RespLaws H)
include laws

theorem number_natLength {n : Nat} (h : n < 2 ^ 53) :
    H.number (H.text (utf8 (toString n))) = .ofInt n := by
  rw [laws.text_utf8]
  exact laws.number_toString n (by rwa [Int.natAbs_natCast])

theorem number_minusOne : H.number (H.text (utf8 "-1")) = .ofInt (-1) := by
  rw [laws.text_utf8]
  exact laws.number_toString (-1) (by decide)

end

theorem stringLength_ofInt (n : Nat) : stringLength (.ofInt n) = .ok (some n) := rfl

theorem passes_ofInt (limit n : Nat) : passes limit (.ofInt n) = n := by
  show (Rat.ceil ((n : Int) : ℚ)).toNat = n
  rw [Rat.ceil_intCast]
  rfl

theorem natCast_not_lt_zero (n : Nat) : ¬(JsNumber.ofInt n).lt (.ofInt 0) = true := by
  rw [JsNumber.lt_ofInt]
  simp

/-- A line is read by its type. -/
theorem parseReply_line {type : UInt8} (htype : (13 : UInt8) ≠ type) (h : (13 : UInt8) ∉ line)
    (rest : Bytes) :
    parseReply H (respLine type line ++ rest) =
      readTyped H (parseReply H) (type :: line) rest := by
  have hline : (13 : UInt8) ∉ type :: line := by
    rw [List.mem_cons, not_or]
    exact ⟨htype, h⟩
  have hsplit : splitLine (respLine type line ++ rest) = some (type :: line, rest) :=
    splitLine_line hline rest
  rw [parseReply_eq, hsplit]

theorem cr_not_mem_length (n : Nat) : (13 : UInt8) ∉ utf8 (toString n) := cr_not_mem_toString n

theorem cr_not_mem_minusOne : (13 : UInt8) ∉ utf8 "-1" := by decide

/-- A counted string of any bytes, line ends among them, reads back. -/
theorem parseReply_bulkString (laws : RespLaws H) {data : Bytes} (h : data.length < 2 ^ 53)
    (rest : Bytes) :
    parseReply H (bulkString data ++ rest) = .ok (some (.text (H.text data), rest)) := by
  have hsplit : bulkString data ++ rest =
      respLine 36 (utf8 (toString data.length)) ++ (data ++ (CRLF ++ rest)) := by
    simp only [bulkString, List.append_assoc]
  have hread : readTyped H (parseReply H) (36 :: utf8 (toString data.length))
      (data ++ (CRLF ++ rest)) =
        andRead (stringLength (.ofInt data.length)) fun n =>
          if (data ++ (CRLF ++ rest)).length < n + 2 then .ok none
          else .ok (some (.text (H.text ((data ++ (CRLF ++ rest)).take n)),
            (data ++ (CRLF ++ rest)).drop (n + 2))) := by
    show (if (H.number (H.text (utf8 (toString data.length)))).lt (.ofInt 0) = true then _ else
      andRead (stringLength (H.number (H.text (utf8 (toString data.length))))) _) = _
    rw [number_natLength laws h, if_neg (natCast_not_lt_zero _)]
  have hlen : ¬(data ++ (CRLF ++ rest)).length < data.length + 2 := by
    simp only [List.length_append, CRLF, List.length_cons, List.length_nil]
    omega
  rw [hsplit, parseReply_line (by decide) (cr_not_mem_length _), hread, stringLength_ofInt,
    andRead_some, if_neg hlen, List.take_left, List.drop_append]
  simp [CRLF]

/-- A counted sequence is read item by item. -/
theorem parseReply_sequence (laws : RespLaws H) {n : Nat} (h : n < 2 ^ 53) (rest : Bytes) :
    parseReply H (respLine 42 (utf8 (toString n)) ++ rest) =
      andRead (readItems (parseReply H) n rest) fun (items, next) =>
        .ok (some (.array items, next)) := by
  rw [parseReply_line (by decide) (cr_not_mem_length _)]
  show (if (H.number (H.text (utf8 (toString n)))).lt (.ofInt 0) = true then _ else
    andRead (readItems (parseReply H) (passes _ (H.number (H.text (utf8 (toString n))))) rest) _) = _
  rw [number_natLength laws h, if_neg (natCast_not_lt_zero _), passes_ofInt]

theorem parseReply_null (laws : RespLaws H) {type : UInt8} (h : type = 36 ∨ type = 42)
    (rest : Bytes) :
    parseReply H (respLine type (utf8 "-1") ++ rest) = .ok (some (.null, rest)) := by
  rcases h with rfl | rfl
  all_goals
    rw [parseReply_line (by decide) cr_not_mem_minusOne]
    show (if (H.number (H.text (utf8 "-1"))).lt (.ofInt 0) = true then _ else _) = _
    rw [number_minusOne laws, if_pos (by decide)]

/-- **A reply that was written is read**, and nothing behind it is. -/
theorem Resp.WellFormed.parseReply (laws : RespLaws H) {r : Resp} (h : r.WellFormed)
    (rest : Bytes) : parseReply H (r.encode ++ rest) = .ok (some (r.value H, rest)) := by
  induction h generalizing rest with
  | simple h =>
    rw [Resp.encode, parseReply_line (by decide) h.1]
    rfl
  | error h =>
    rw [Resp.encode, parseReply_line (by decide) h.1]
    rfl
  | integer n =>
    rw [Resp.encode, parseReply_line (by decide) (cr_not_mem_toString n)]
    show Except.ok (some (Reply.number (H.number (H.text (utf8 (toString n)))), rest)) = _
    rw [laws.text_utf8]
    rfl
  | bulk h => exact parseReply_bulkString laws h rest
  | nullBulk => exact parseReply_null laws (.inl rfl) rest
  | nullArray => exact parseReply_null laws (.inr rfl) rest
  | @array items hlen h ih =>
    have hitems : ∀ rs : List Resp, (∀ r ∈ rs, r ∈ items) → readItems (CoolSdk.parseReply H)
        rs.length (Resp.encodeAll rs ++ rest) = .ok (some (Resp.values H rs, rest)) := by
      intro rs hrs
      induction rs with
      | nil => rfl
      | cons r rs ihrs =>
        rw [List.length_cons, Resp.encodeAll, List.append_assoc, readItems,
          ih r (hrs r List.mem_cons_self), andRead_some]
        dsimp only
        rw [ihrs fun r hr => hrs r (List.mem_cons_of_mem _ hr)]
        rfl
    rw [Resp.encode, List.append_assoc, parseReply_sequence laws hlen, hitems items fun _ hr => hr]
    rfl

theorem length_lt_of_suffixes (hread : Suffixes read) (h : read b = .ok (some (v, rest))) :
    b = b.take (b.length - rest.length) ++ rest ∧ b.take (b.length - rest.length) ≠ [] := by
  obtain ⟨taken, hne, rfl⟩ := hread h
  rw [List.length_append, Nat.add_sub_cancel, List.take_left]
  exact ⟨rfl, hne⟩

/-- A reply beside the bytes it was read from. -/
def readRaw (H : RespHost) (b : Bytes) : Except RespError (Option ((Reply × Bytes) × Bytes)) :=
  andRead (parseReply H b) fun (v, rest) => .ok (some ((v, b.take (b.length - rest.length)), rest))

theorem readRaw_eq_some {raw : Bytes} :
    readRaw H b = .ok (some ((v, raw), rest)) ↔
      parseReply H b = .ok (some (v, rest)) ∧ b = raw ++ rest := by
  rw [readRaw, andRead_eq_some]
  constructor
  · rintro ⟨⟨v', rest'⟩, h, hpair⟩
    cases hpair
    exact ⟨h, (length_lt_of_suffixes (suffixes_parseReply H) h).1⟩
  · rintro ⟨h, rfl⟩
    refine ⟨_, h, ?_⟩
    dsimp only
    rw [List.length_append, Nat.add_sub_cancel, List.take_left]

theorem readRaw_eq_error : readRaw H b = .error e ↔ parseReply H b = .error e := by
  rw [readRaw, andRead_eq_error]
  constructor
  · rintro (h | ⟨_, _, h⟩)
    · exact h
    · cases h
  · exact Or.inl

theorem readRaw_eq_none : readRaw H b = .ok none ↔ parseReply H b = .ok none := by
  rw [readRaw]
  rcases parseReply H b with e | _ | a <;> simp [andRead]

/-- The replies of a stream, read off its front. -/
def replyReader (H : RespHost) : Reader UInt8 (Reply × Bytes) RespError where
  read := readRaw H
  raw := Prod.snd
  split := by
    rintro b rest ⟨v, raw⟩ h
    obtain ⟨hread, rfl⟩ := readRaw_eq_some.mp h
    obtain ⟨taken, hne, htaken⟩ := suffixes_parseReply H hread
    exact ⟨rfl, List.append_cancel_right htaken ▸ hne⟩
  message := by
    rintro b rest ⟨v, raw⟩ c h
    obtain ⟨hread, rfl⟩ := readRaw_eq_some.mp h
    apply readRaw_eq_some.mpr
    exact ⟨(grows_parseReply H _).message c le_rfl hread, List.append_assoc _ _ _⟩
  failure := by
    intro b e c h
    apply readRaw_eq_error.mpr
    exact (grows_parseReply H _).failure c le_rfl (readRaw_eq_error.mp h)

/-- What a reply is on the wire is read as that reply. -/
theorem Resp.WellFormed.encodes (laws : RespLaws H) {r : Resp} (h : r.WellFormed) :
    (replyReader H).Encodes r.encode (r.value H, r.encode) := by
  intro rest
  exact readRaw_eq_some.mpr ⟨h.parseReply laws rest, rfl⟩

end CoolSdk
