import CoolSdk.Phala.AnchorSpelling
import CoolSdk.Phala.NeverThrows

/-!
# Round trips of proof files

What is read back of a proof that was written, and what is written of a proof that was read. The
writer has one spelling for every tree and names one hash function, and the reader keeps neither
the payload of an unknown attestation nor a byte order mark, so that a round trip returns what it
started with on the plain files and the plain trees only.
-/

namespace CoolSdk.Anchor

/-! ## Plain values -/

/-- Text without the byte order mark that it may begin with. -/
def withoutMark (text : String) : String :=
  match text.toList with
  | [] => text
  | c :: cs => if c = '\uFEFF' then String.ofList cs else text

/-- The runtime's decoder ignores a byte order mark in front of the text. -/
def AnchorHost.Decodes (A : AnchorHost) : Prop :=
  ∀ text, A.textDecode (utf8 text) = withoutMark text

/-- Text that begins with no byte order mark. -/
def Bare (text : String) : Prop := text.toList.head? ≠ some '\uFEFF'

/-- A double that has at most nine digits. -/
def IsNumber (n : Nat) : Prop := n < 2 ^ 63 ∧ JsNumber.IsDouble n

/-- An attestation of which nothing is lost when it is written and read. -/
def Attestation.Plain : Attestation → Prop
  | .pending uri => Bare uri
  | .bitcoin height | .litecoin height | .ethereum height => IsNumber height
  | .unknown tag payload => tag.length = 8 ∧ ¬KnownTag tag ∧ payload = []

/-- An operation has an argument where one is read. -/
def AnchorOp.Shaped (op : AnchorOp) : Prop := op.arg.isSome ↔ op.tag = 0xf0 ∨ op.tag = 0xf1

/-- A tree whose tags and arguments are those of a file. -/
inductive Timestamp.Shaped : Timestamp → Prop
  | mk {msg : Bytes} {attestations : List Attestation} {ops : List (AnchorOp × Timestamp)}
      (hattestations : ∀ a ∈ attestations, (attestationTag a).length = 8)
      (hops : ∀ entry ∈ ops, entry.1.Shaped) (h : ∀ entry ∈ ops, Shaped entry.2) :
      Shaped (.mk msg attestations ops)

/-- A tree of which nothing is lost when it is written and read. -/
inductive Timestamp.Plain : Timestamp → Prop
  | mk {msg : Bytes} {attestations : List Attestation} {ops : List (AnchorOp × Timestamp)}
      (hattestations : ∀ a ∈ attestations, a.Plain) (hops : ∀ entry ∈ ops, entry.1.Shaped)
      (h : ∀ entry ∈ ops, Plain entry.2) : Plain (.mk msg attestations ops)

/-- An item in the writer's spelling: lengths have no digit too many, and what an attestation says
is all that its payload holds. -/
inductive Item.Plain : Item → Prop
  | attestation {tag len payload : Bytes} (hlen : len = writeVaruint payload.length)
      (hpayload : ∃ a : Attestation, a.Plain ∧ attestationTag a = tag ∧
        attestationPayload a = payload) : Plain (.attestation tag len payload)
  | op {tag : UInt8} {arg : Option (Bytes × Bytes)} {items : List Item}
      (harg : ∀ pair ∈ arg, pair.1 = writeVaruint pair.2.length)
      (h : ∀ item ∈ items, Plain item) : Plain (.op tag arg items)

def Item.isOp : Item → Prop
  | .attestation .. => False
  | .op .. => True

/-- No attestation comes behind an operation. -/
def AttestationsFirst (items : List Item) : Prop := items.Pairwise fun a b => a.isOp → b.isOp

/-- No attestation comes behind an operation of the same node. -/
inductive Item.Grouped : Item → Prop
  | attestation {tag len payload : Bytes} : Grouped (.attestation tag len payload)
  | op {tag : UInt8} {arg : Option (Bytes × Bytes)} {items : List Item}
      (hfirst : AttestationsFirst items) (h : ∀ item ∈ items, Grouped item) :
      Grouped (.op tag arg items)

/-- The order of a file: attestations before operations, and both sorted, at every node. -/
structure ProofFile.Canonical (file : ProofFile) (t : Timestamp) : Prop where
  first : AttestationsFirst file.items
  grouped : ∀ item ∈ file.items, item.Grouped
  sorted : t.Sorted

/-- A file in the writer's spelling, about a SHA-256. -/
structure ProofFile.Plain (file : ProofFile) : Prop where
  version : file.version = writeVaruint MAJOR_VERSION
  hashOp : file.hashOp = 0x08
  items : ∀ item ∈ file.items, item.Plain
  trailing : file.trailing = []

variable {H : Host} {A : AnchorHost} {t : Timestamp} {n : Nat}

/-! ## Reading values back -/

theorem withoutMark_eq_self {text : String} : withoutMark text = text ↔ Bare text := by
  rw [withoutMark, Bare]
  cases htext : text.toList with
  | nil => simp
  | cons c cs =>
    dsimp only
    split_ifs with hmark
    · have hne : String.ofList cs ≠ text := by
        intro h
        have hlen := congrArg List.length (String.toList_inj.mpr h)
        rw [String.toList_ofList, htext, List.length_cons] at hlen
        omega
      simp [hmark, hne]
    · simp [hmark]

theorem varbytes_write {b : Bytes} (h : b.length < 2 ^ 53) (rest : Bytes) :
    varbytes (writeVarbytes b ++ rest) = .ok (b, rest) := by
  rw [varbytes_eq_ok]
  refine ⟨writeVaruint b.length, ?_, rfl⟩
  have hread := varuint_write (n := b.length) (by omega) (JsNumber.isDouble_of_lt h) []
  rwa [List.append_nil] at hread

/-- A number reads back where it is a double of at most nine digits. -/
theorem varuint_write_iff : (∃ rest, varuint (writeVaruint n) = .ok (n, rest)) ↔ IsNumber n := by
  constructor
  · rintro ⟨rest, h⟩
    obtain ⟨b, hb, hlen, hdigits, hdouble, _⟩ := varuint_split h
    have hsame : writeVaruint n ++ [] = b ++ rest := by rw [List.append_nil, hdigits]
    obtain ⟨rfl, _⟩ := (isVaruint_write n).append_inj hb hsame
    exact ⟨length_writeVaruint_le hlen, hdouble⟩
  · rintro ⟨hn, hdouble⟩
    have hread := varuint_write hn hdouble []
    rw [List.append_nil] at hread
    exact ⟨[], hread⟩

theorem height_eq_ok {f : Nat → Attestation} (hf : Function.Injective f) {payload : Bytes} :
    (do let (height, _) ← varuint payload; return f height : Except String Attestation) =
      .ok (f n) ↔ ∃ rest, varuint payload = .ok (n, rest) := by
  rw [bind_eq_ok]
  constructor
  · rintro ⟨⟨height, rest⟩, hread, h⟩
    obtain rfl := hf (Except.ok.inj h)
    exact ⟨rest, hread⟩
  · rintro ⟨rest, hread⟩
    exact ⟨(n, rest), hread, rfl⟩

/-- What is attested has the tag that was read. -/
theorem attestationTag_of_attested {tag payload : Bytes} {a : Attestation}
    (h : attested A tag payload = .ok a) : attestationTag a = tag := by
  rw [attested] at h
  split_ifs at h with hpending hbitcoin hlitecoin hethereum
  · obtain ⟨_, _, h⟩ := bind_eq_ok.mp h
    cases h
    exact hpending.symm
  · obtain ⟨_, _, h⟩ := bind_eq_ok.mp h
    cases h
    exact hbitcoin.symm
  · obtain ⟨_, _, h⟩ := bind_eq_ok.mp h
    cases h
    exact hlitecoin.symm
  · obtain ⟨_, _, h⟩ := bind_eq_ok.mp h
    cases h
    exact hethereum.symm
  · cases h
    rfl

/-- **An attestation reads back where it is plain.** -/
theorem attested_self (hA : A.Decodes) {a : Attestation} (htag : (attestationTag a).length = 8)
    (hlen : (attestationPayload a).length < 2 ^ 53) :
    attested A (attestationTag a) (attestationPayload a) = .ok a ↔ a.Plain := by
  cases a with
  | pending uri =>
    have hshort : (utf8 uri).length < 2 ^ 53 := by
      rw [attestationPayload, writeVarbytes, List.length_append] at hlen
      omega
    have hread := varbytes_write hshort []
    rw [List.append_nil] at hread
    rw [attestationTag, attestationPayload, attested, if_pos rfl, hread, Attestation.Plain,
      ← withoutMark_eq_self, ← hA]
    constructor
    · intro h
      exact Attestation.pending.inj (Except.ok.inj h)
    · intro h
      show Except.ok (Attestation.pending (A.textDecode (utf8 uri))) = _
      rw [h]
  | bitcoin height =>
    rw [attestationTag, attestationPayload, attested, if_neg (by decide), if_pos rfl,
      height_eq_ok fun _ _ => Attestation.bitcoin.inj, varuint_write_iff, Attestation.Plain]
  | litecoin height =>
    rw [attestationTag, attestationPayload, attested, if_neg (by decide), if_neg (by decide),
      if_pos rfl, height_eq_ok fun _ _ => Attestation.litecoin.inj, varuint_write_iff,
      Attestation.Plain]
  | ethereum height =>
    rw [attestationTag, attestationPayload, attested, if_neg (by decide), if_neg (by decide),
      if_neg (by decide), if_pos rfl, height_eq_ok fun _ _ => Attestation.ethereum.inj,
      varuint_write_iff, Attestation.Plain]
  | unknown tag payload =>
    rw [attestationTag, attestationPayload, attested, Attestation.Plain, KnownTag]
    constructor
    · intro h
      split_ifs at h with hpending hbitcoin hlitecoin hethereum
      · obtain ⟨_, _, h⟩ := bind_eq_ok.mp h
        cases h
      · obtain ⟨_, _, h⟩ := bind_eq_ok.mp h
        cases h
      · obtain ⟨_, _, h⟩ := bind_eq_ok.mp h
        cases h
      · obtain ⟨_, _, h⟩ := bind_eq_ok.mp h
        cases h
      · cases h
        exact ⟨htag, by tauto, rfl⟩
    · rintro ⟨_, hunknown, rfl⟩
      simp only [not_or] at hunknown
      rw [if_neg hunknown.1, if_neg hunknown.2.1, if_neg hunknown.2.2.1, if_neg hunknown.2.2.2]
      rfl

/-! ## Reading trees back -/

theorem Attestation.Plain.length_tag {a : Attestation} (h : a.Plain) :
    (attestationTag a).length = 8 := by
  cases a with
  | unknown tag payload => exact h.1
  | _ => rfl

theorem Timestamp.Plain.shaped (h : t.Plain) : t.Shaped := by
  induction h with
  | mk hattestations hops h ih =>
    exact .mk (fun a ha => (hattestations a ha).length_tag) hops ih

theorem length_print_le {item : Item} {items : List Item} (h : item ∈ items) :
    item.print.length ≤ (printItems items).length := by
  induction items with
  | nil => cases h
  | cons item' items ih =>
    rw [printItems, List.length_append, List.length_append]
    rcases List.mem_cons.mp h with rfl | h
    · omega
    · exact (ih h).trans (Nat.le_add_left _ _)

theorem mem_items (msg : Bytes) (attestations : List Attestation)
    (ops : List (AnchorOp × Timestamp)) {item : Item} :
    item ∈ (Timestamp.mk msg attestations ops).items ↔
      (∃ a ∈ attestations, spellAttestation a = item) ∨
        ∃ entry ∈ ops, Item.op entry.1.tag (spellArg entry.1.arg) entry.2.items = item := by
  rw [Timestamp.items, List.mem_append, List.mem_map, stampItems_eq_map, List.mem_map]

theorem Timestamp.NonEmpty.items_ne_nil (h : t.NonEmpty) : t.items ≠ [] := by
  cases h with
  | mk hne h =>
    rw [items, stampItems_eq_map, Ne, List.append_eq_nil_iff, List.map_eq_nil_iff,
      List.map_eq_nil_iff, not_and_or]
    exact hne

theorem length_payload_le (a : Attestation) :
    (attestationPayload a).length ≤ (spellAttestation a).print.length := by
  rw [spellAttestation, Item.print, List.length_cons, List.length_append, List.length_append]
  omega

theorem length_items_le (tag : UInt8) (arg : Option (Bytes × Bytes)) (items : List Item) :
    (printItems items).length ≤ (Item.op tag arg items).print.length := by
  rw [Item.print, List.length_cons, List.length_append]
  omega

theorem readableArg_spell {op : AnchorOp} {items : List Item} (h : op.Shaped)
    (hlen : (Item.op op.tag (spellArg op.arg) items).print.length < 2 ^ 53) :
    ReadableArg op.tag (spellArg op.arg) := by
  obtain ⟨tag, arg⟩ := op
  cases arg with
  | none => exact fun htag => nomatch h.mpr htag
  | some arg =>
    rw [spellArg, Option.map_some, Item.print, printArg] at hlen
    simp only [List.length_cons, List.length_append] at hlen
    have hread := varuint_write (n := arg.length) (by omega)
      (JsNumber.isDouble_of_lt (by omega)) []
    rw [List.append_nil] at hread
    exact ⟨h.mp rfl, hread⟩

theorem tag_of_applyOp {op : AnchorOp} {msg derived : Bytes}
    (h : applyOp H A op msg = .ok derived) : op.tag ≠ 0x00 ∧ op.tag ≠ 0xff := by
  obtain ⟨tag, arg⟩ := op
  constructor
  · rintro rfl
    cases h
  · rintro rfl
    cases h

/-- What is written of a tree in the shape of a file is in the syntax. -/
theorem Timestamp.NonEmpty.items_readable (h : t.NonEmpty) (hderived : t.Derived H A)
    (hshaped : t.Shaped) (hlen : (printItems t.items).length < 2 ^ 53) :
    ∀ item ∈ t.items, item.Readable := by
  induction h with
  | @mk msg attestations ops hne h ih =>
    obtain ⟨hattestations, hops, hbelow⟩ := hshaped
    obtain ⟨hop, hstamp⟩ := hderived
    intro item hitem
    have hshort := (length_print_le hitem).trans_lt hlen
    rcases (mem_items msg attestations ops).mp hitem with ⟨a, ha, rfl⟩ | ⟨entry, he, rfl⟩
    · have hpayload := (length_payload_le a).trans_lt hshort
      have hread := varuint_write (n := (attestationPayload a).length) (by omega)
        (JsNumber.isDouble_of_lt hpayload) []
      rw [List.append_nil] at hread
      exact .attestation (hattestations a ha) hread
    · exact .op (tag_of_applyOp (hop entry he)) (readableArg_spell (hops entry he) hshort)
        (h entry he).items_ne_nil
        (ih entry he (hstamp entry he) (hbelow entry he)
          ((length_items_le _ _ _).trans_lt hshort))

theorem itemsMeaning_cons_eq_ok {msg : Bytes} {item : Item} {items : List Item}
    {attestations : List Attestation} {ops : List (AnchorOp × Timestamp)} :
    itemsMeaning H A msg (item :: items) = .ok (attestations, ops) ↔
      ∃ as os as' os', item.meaning H A msg = .ok (as, os) ∧
        itemsMeaning H A msg items = .ok (as', os') ∧ attestations = as ++ as' ∧
          ops = os ++ os' := by
  constructor
  · intro h
    rw [itemsMeaning] at h
    obtain ⟨⟨as, os⟩, hitem, hmore⟩ := bind_eq_ok.mp h
    obtain ⟨⟨as', os'⟩, hitems, hboth⟩ := bind_eq_ok.mp hmore
    cases hboth
    exact ⟨as, os, as', os', hitem, hitems, rfl, rfl⟩
  · rintro ⟨as, os, as', os', hitem, hitems, rfl, rfl⟩
    exact itemsMeaning_cons hitem hitems

theorem meaning_attestation_eq_ok {msg tag len payload : Bytes} {as : List Attestation}
    {os : List (AnchorOp × Timestamp)} :
    (Item.attestation tag len payload).meaning H A msg = .ok (as, os) ↔
      ∃ a, attested A tag payload = .ok a ∧ as = [a] ∧ os = [] := by
  rw [Item.meaning, bind_eq_ok]
  constructor
  · rintro ⟨a, ha, h⟩
    cases h
    exact ⟨a, ha, rfl, rfl⟩
  · rintro ⟨a, ha, rfl, rfl⟩
    exact ⟨a, ha, rfl⟩

theorem meaning_op_eq_ok {msg : Bytes} {tag : UInt8} {arg : Option (Bytes × Bytes)}
    {items : List Item} {as : List Attestation} {os : List (AnchorOp × Timestamp)} :
    (Item.op tag arg items).meaning H A msg = .ok (as, os) ↔
      ∃ derived attestations ops, applyOp H A { tag, arg := arg.map Prod.snd } msg = .ok derived ∧
        itemsMeaning H A derived items = .ok (attestations, ops) ∧ as = [] ∧
          os = [({ tag, arg := arg.map Prod.snd }, .mk derived attestations ops)] := by
  rw [Item.meaning, bind_eq_ok]
  constructor
  · rintro ⟨derived, happly, h⟩
    obtain ⟨⟨attestations, ops⟩, hbelow, h⟩ := bind_eq_ok.mp h
    cases h
    exact ⟨derived, attestations, ops, happly, hbelow, rfl, rfl⟩
  · rintro ⟨derived, attestations, ops, happly, hbelow, rfl, rfl⟩
    refine ⟨derived, happly, ?_⟩
    rw [hbelow]
    rfl

theorem map_snd_spellArg (arg : Option Bytes) : (spellArg arg).map Prod.snd = arg := by
  cases arg with
  | none => rfl
  | some arg => rfl

/-- What is spelled of operations reads back where each does. -/
theorem itemsMeaning_stampItems {msg : Bytes} {ops : List (AnchorOp × Timestamp)} :
    itemsMeaning H A msg (stampItems ops) = .ok ([], ops) ↔ ∀ entry ∈ ops,
      (Item.op entry.1.tag (spellArg entry.1.arg) entry.2.items).meaning H A msg =
        .ok ([], [entry]) := by
  induction ops with
  | nil => simp [stampItems, itemsMeaning]
  | cons entry ops ih =>
    rw [stampItems, itemsMeaning_cons_eq_ok, List.forall_mem_cons, ← ih]
    constructor
    · rintro ⟨as, os, as', os', hitem, hitems, has, hos⟩
      obtain ⟨derived, attestations, below, _, _, rfl, rfl⟩ := meaning_op_eq_ok.mp hitem
      obtain ⟨hentry, rfl⟩ := List.cons.inj hos
      obtain rfl : as' = [] := has.symm
      rw [← hentry] at hitem
      exact ⟨hitem, hitems⟩
    · rintro ⟨hitem, hitems⟩
      exact ⟨_, _, _, _, hitem, hitems, rfl, rfl⟩

/-- What is spelled of a node reads back where its attestations and its operations do. -/
theorem itemsMeaning_items {msg : Bytes} {attestations : List Attestation}
    {ops : List (AnchorOp × Timestamp)} :
    itemsMeaning H A msg (Timestamp.mk msg attestations ops).items = .ok (attestations, ops) ↔
      (∀ a ∈ attestations, attested A (attestationTag a) (attestationPayload a) = .ok a) ∧
        ∀ entry ∈ ops, (Item.op entry.1.tag (spellArg entry.1.arg) entry.2.items).meaning H A msg =
          .ok ([], [entry]) := by
  rw [Timestamp.items, ← itemsMeaning_stampItems]
  induction attestations with
  | nil => simp
  | cons a attestations ih =>
    rw [List.map_cons, List.cons_append, itemsMeaning_cons_eq_ok, List.forall_mem_cons, and_assoc,
      ← ih]
    constructor
    · rintro ⟨as, os, as', os', hitem, hitems, has, hos⟩
      obtain ⟨a', ha', rfl, rfl⟩ := meaning_attestation_eq_ok.mp hitem
      obtain ⟨rfl, rfl⟩ := List.cons.inj has
      obtain rfl : os' = ops := hos.symm
      exact ⟨ha', hitems⟩
    · rintro ⟨ha, hitems⟩
      exact ⟨_, _, _, _, meaning_attestation_eq_ok.mpr ⟨a, ha, rfl, rfl⟩, hitems, rfl, rfl⟩

/-- **A tree reads back where it is plain.** -/
theorem Timestamp.Shaped.items_meaning (hA : A.Decodes) (hshaped : t.Shaped)
    (hderived : t.Derived H A) (hlen : (printItems t.items).length < 2 ^ 53) :
    ∀ {attestations ops}, t = .mk t.msg attestations ops →
      (itemsMeaning H A t.msg t.items = .ok (attestations, ops) ↔ t.Plain) := by
  induction hshaped with
  | @mk msg attestations ops hattestations hops h ih =>
    intro attestations' ops' ht
    obtain ⟨_, rfl, rfl⟩ := Timestamp.mk.inj ht
    obtain ⟨hop, hstamp⟩ := hderived
    have hone : ∀ a ∈ attestations,
        (attested A (attestationTag a) (attestationPayload a) = .ok a ↔ a.Plain) := by
      intro a ha
      have hitem := length_print_le ((mem_items msg attestations ops).mpr (.inl ⟨a, ha, rfl⟩))
      exact attested_self hA (hattestations a ha)
        ((length_payload_le a).trans_lt (hitem.trans_lt hlen))
    have hbelow : ∀ entry ∈ ops,
        ((Item.op entry.1.tag (spellArg entry.1.arg) entry.2.items).meaning H A msg =
          .ok ([], [entry]) ↔ entry.2.Plain) := by
      intro entry he
      have hitem := length_print_le ((mem_items msg attestations ops).mpr
        (.inr ⟨entry, he, rfl⟩))
      obtain ⟨op, below, as, os⟩ := entry
      rw [← ih _ he (hstamp _ he) ((length_items_le _ _ _).trans_lt (hitem.trans_lt hlen)) rfl,
        meaning_op_eq_ok, map_snd_spellArg]
      constructor
      · rintro ⟨derived, as', os', happly, hmeaning, _, hentry⟩
        cases hentry
        exact hmeaning
      · intro hmeaning
        exact ⟨below, as, os, hop _ he, hmeaning, rfl, rfl⟩
    rw [Timestamp.msg, itemsMeaning_items]
    constructor
    · rintro ⟨hplain, hplains⟩
      exact .mk (fun a ha => (hone a ha).mp (hplain a ha)) hops
        fun entry he => (hbelow entry he).mp (hplains entry he)
    · intro hplain
      obtain ⟨hplain, _, hplains⟩ := hplain
      exact ⟨fun a ha => (hone a ha).mpr (hplain a ha),
        fun entry he => (hbelow entry he).mpr (hplains entry he)⟩

/-! ## Spelling what was read -/

/-- What a node says is what its items say. -/
theorem forall_itemsMeaning {p : Attestation → Prop} {q : AnchorOp × Timestamp → Prop} {msg : Bytes}
    {items : List Item} (h : ∀ item ∈ items, ∀ {as os}, item.meaning H A msg = .ok (as, os) →
      (∀ a ∈ as, p a) ∧ ∀ entry ∈ os, q entry) {attestations : List Attestation}
    {ops : List (AnchorOp × Timestamp)}
    (hmeaning : itemsMeaning H A msg items = .ok (attestations, ops)) :
    (∀ a ∈ attestations, p a) ∧ ∀ entry ∈ ops, q entry := by
  induction items generalizing attestations ops with
  | nil =>
    cases hmeaning
    exact ⟨List.forall_mem_nil _, List.forall_mem_nil _⟩
  | cons item items ih =>
    rw [List.forall_mem_cons] at h
    obtain ⟨as, os, as', os', hitem, hitems, rfl, rfl⟩ := itemsMeaning_cons_eq_ok.mp hmeaning
    have hone := h.1 hitem
    have hmore := ih h.2 hitems
    exact ⟨List.forall_mem_append.mpr ⟨hone.1, hmore.1⟩,
      List.forall_mem_append.mpr ⟨hone.2, hmore.2⟩⟩

theorem itemsMeaning_ne_nil {msg : Bytes} {items : List Item} (hne : items ≠ [])
    {attestations : List Attestation} {ops : List (AnchorOp × Timestamp)}
    (hmeaning : itemsMeaning H A msg items = .ok (attestations, ops)) :
    attestations ≠ [] ∨ ops ≠ [] := by
  cases items with
  | nil => exact absurd rfl hne
  | cons item items =>
    obtain ⟨as, os, as', os', hitem, _, rfl, rfl⟩ := itemsMeaning_cons_eq_ok.mp hmeaning
    cases item with
    | attestation tag len payload =>
      obtain ⟨a, _, rfl, rfl⟩ := meaning_attestation_eq_ok.mp hitem
      exact .inl (List.cons_ne_nil _ _)
    | op tag arg items =>
      obtain ⟨derived, as, os, _, _, rfl, rfl⟩ := meaning_op_eq_ok.mp hitem
      exact .inr (List.cons_ne_nil _ _)

theorem ReadableArg.shaped {tag : UInt8} {arg : Option (Bytes × Bytes)} (h : ReadableArg tag arg) :
    AnchorOp.Shaped { tag, arg := arg.map Prod.snd } := by
  cases arg with
  | none => exact ⟨fun hsome => absurd hsome Bool.false_ne_true, fun htag => absurd htag h⟩
  | some pair => exact ⟨fun _ => h.1, fun _ => rfl⟩

/-- What an item says is in the shape of a file, and no node below it is empty. -/
theorem Item.Readable.shaped {item : Item} (h : item.Readable) :
    ∀ {msg as os}, item.meaning H A msg = .ok (as, os) →
      (∀ a ∈ as, (attestationTag a).length = 8) ∧
        ∀ entry ∈ os, entry.1.Shaped ∧ entry.2.Shaped ∧ entry.2.NonEmpty := by
  induction h with
  | attestation htag hlen =>
    intro msg as os hmeaning
    obtain ⟨a, ha, rfl, rfl⟩ := meaning_attestation_eq_ok.mp hmeaning
    refine ⟨?_, List.forall_mem_nil _⟩
    rw [List.forall_mem_singleton, attestationTag_of_attested ha]
    exact htag
  | op htag harg hne h ih =>
    intro msg as os hmeaning
    obtain ⟨derived, as, os, _, hbelow, rfl, rfl⟩ := meaning_op_eq_ok.mp hmeaning
    obtain ⟨hattestations, hops⟩ := forall_itemsMeaning (fun item hitem => ih item hitem) hbelow
    refine ⟨List.forall_mem_nil _, ?_⟩
    rw [List.forall_mem_singleton]
    exact ⟨harg.shaped,
      .mk hattestations (fun entry he => (hops entry he).1) fun entry he => (hops entry he).2.1,
      .mk (itemsMeaning_ne_nil hne hbelow) fun entry he => (hops entry he).2.2⟩

/-- What readable items say is in the shape of a file, and no node of it is empty. -/
theorem shaped_of_itemsMeaning {msg : Bytes} {items : List Item} (hne : items ≠ [])
    (hitems : ∀ item ∈ items, item.Readable) {attestations : List Attestation}
    {ops : List (AnchorOp × Timestamp)}
    (hmeaning : itemsMeaning H A msg items = .ok (attestations, ops)) :
    (Timestamp.mk msg attestations ops).Shaped ∧ (Timestamp.mk msg attestations ops).NonEmpty := by
  obtain ⟨hattestations, hops⟩ :=
    forall_itemsMeaning (fun item hitem => (hitems item hitem).shaped) hmeaning
  exact ⟨.mk hattestations (fun entry he => (hops entry he).1) fun entry he => (hops entry he).2.1,
    .mk (itemsMeaning_ne_nil hne hmeaning) fun entry he => (hops entry he).2.2⟩

/-- An item that is spelled again as it is where it is in the writer's spelling. -/
def Item.Respelled (H : Host) (A : AnchorHost) (item : Item) : Prop :=
  ∀ {msg as os}, item.Grouped → item.print.length < 2 ^ 53 → item.meaning H A msg = .ok (as, os) →
    ((Timestamp.mk msg as os).items = [item] ↔ item.Plain)

/-- Attestations that come first stay where they are when a node is spelled again. -/
theorem items_eq_iff_of {msg : Bytes} {items : List Item}
    (hrespelled : ∀ item ∈ items, item.Respelled H A) (hfirst : AttestationsFirst items)
    (hgrouped : ∀ item ∈ items, item.Grouped) (hlen : (printItems items).length < 2 ^ 53)
    {attestations : List Attestation} {ops : List (AnchorOp × Timestamp)}
    (hmeaning : itemsMeaning H A msg items = .ok (attestations, ops)) :
    (Timestamp.mk msg attestations ops).items = items ↔ ∀ item ∈ items, item.Plain := by
  induction items generalizing attestations ops with
  | nil =>
    cases hmeaning
    simp [Timestamp.items, stampItems]
  | cons item items ih =>
    have hitemlen := (length_print_le (List.mem_cons_self (l := items))).trans_lt hlen
    have hmorelen : (printItems items).length < 2 ^ 53 := by
      rw [printItems, List.length_append] at hlen
      omega
    rw [List.forall_mem_cons] at hrespelled hgrouped
    rw [AttestationsFirst, List.pairwise_cons] at hfirst
    obtain ⟨as, os, as', os', hitem, hitems, rfl, rfl⟩ := itemsMeaning_cons_eq_ok.mp hmeaning
    have hone := hrespelled.1 hgrouped.1 hitemlen hitem
    have hmore := ih hrespelled.2 hfirst.2 hgrouped.2 hmorelen hitems
    rw [List.forall_mem_cons, ← hone, ← hmore]
    cases item with
    | attestation tag len payload =>
      obtain ⟨a, _, rfl, rfl⟩ := meaning_attestation_eq_ok.mp hitem
      simp [Timestamp.items, stampItems]
    | op tag arg below =>
      -- what is behind an operation attests nothing
      have hnone : as' = [] := by
        have hops := (forall_itemsMeaning (p := fun _ => False) (q := fun _ => True)
          (fun item' hitem' => ?_) hitems).1
        · exact List.eq_nil_iff_forall_not_mem.mpr hops
        · intro as os hmeaning'
          cases item' with
          | attestation tag len payload => exact (hfirst.1 _ hitem' trivial).elim
          | op tag arg items =>
            obtain ⟨_, _, _, _, _, rfl, _⟩ := meaning_op_eq_ok.mp hmeaning'
            exact ⟨List.forall_mem_nil _, fun _ _ => trivial⟩
      obtain ⟨derived, _, _, _, _, rfl, rfl⟩ := meaning_op_eq_ok.mp hitem
      simp [Timestamp.items, stampItems, hnone]

theorem spellArg_map_snd {arg : Option (Bytes × Bytes)} :
    spellArg (arg.map Prod.snd) = arg ↔ ∀ pair ∈ arg, pair.1 = writeVaruint pair.2.length := by
  cases arg with
  | none => simp [spellArg]
  | some pair =>
    obtain ⟨len, arg⟩ := pair
    simp [spellArg, eq_comm]

theorem Item.Readable.respelled (hA : A.Decodes) {item : Item} (h : item.Readable) :
    item.Respelled H A := by
  induction h with
  | @attestation tag len payload htag hlen =>
    intro msg as os _ hshort hmeaning
    obtain ⟨a, ha, rfl, rfl⟩ := meaning_attestation_eq_ok.mp hmeaning
    obtain rfl := attestationTag_of_attested ha
    rw [Timestamp.items, stampItems, List.append_nil, List.map_singleton, List.singleton_inj,
      spellAttestation]
    constructor
    · intro heq
      obtain ⟨_, rfl, rfl⟩ := Item.attestation.inj heq
      have hpayload := (length_payload_le a).trans_lt hshort
      exact .attestation rfl ⟨a, (attested_self hA htag hpayload).mp ha, rfl, rfl⟩
    · intro hplain
      obtain ⟨rfl, a', hplain', htag', rfl⟩ := hplain
      have hpayload : (attestationPayload a').length < 2 ^ 53 := by
        rw [Item.print, List.length_cons, List.length_append] at hshort
        omega
      have hself := (attested_self hA (by rw [htag']; exact htag) hpayload).mpr hplain'
      rw [htag'] at hself
      obtain rfl := Except.ok.inj (hself.symm.trans ha)
      rfl
  | @op tag arg items htag harg hne h ih =>
    intro msg as os hgrouped hshort hmeaning
    obtain ⟨derived, as, os, _, hbelow, rfl, rfl⟩ := meaning_op_eq_ok.mp hmeaning
    have hitems : (Timestamp.mk derived as os).items = items ↔ ∀ item ∈ items, item.Plain := by
      cases hgrouped with
      | op hfirst hgroups =>
        exact items_eq_iff_of (fun item hitem => ih item hitem) hfirst hgroups
          ((length_items_le tag arg items).trans_lt hshort) hbelow
    rw [Timestamp.items, stampItems, stampItems, List.map_nil, List.nil_append, List.singleton_inj,
      Item.op.injEq, spellArg_map_snd, hitems]
    constructor
    · rintro ⟨_, hspelled, hplain⟩
      exact .op hspelled hplain
    · intro hplain
      cases hplain with
      | op hspelled hplain => exact ⟨rfl, hspelled, hplain⟩

/-! ## Files -/

theorem Timestamp.NonEmpty.plain_sorted (h : t.NonEmpty) : t.sorted.Plain ↔ t.Plain := by
  induction h with
  | @mk msg attestations ops hne h ih =>
    rw [Timestamp.sorted]
    constructor
    · rintro ⟨hattestations, hops, hplain⟩
      refine .mk (fun a ha => hattestations a (mem_sortAttestations.mpr ha)) ?_ ?_
      · intro entry he
        exact hops (entry.1, entry.2.sorted) (mem_sorted.mpr ⟨entry, he, rfl⟩)
      · intro entry he
        exact (ih entry he).mp (hplain _ (mem_sorted.mpr ⟨entry, he, rfl⟩))
    · rintro ⟨hattestations, hops, hplain⟩
      refine .mk (fun a ha => hattestations a (mem_sortAttestations.mp ha)) ?_ ?_
      · intro entry he
        obtain ⟨e, hmem, rfl⟩ := mem_sorted.mp he
        exact hops e hmem
      · intro entry he
        obtain ⟨e, hmem, rfl⟩ := mem_sorted.mp he
        exact (ih e hmem).mpr (hplain e hmem)

namespace ProofFile

variable {file file' : ProofFile}

/-- The bytes of a file determine its parts. -/
theorem print_inj (hversion : IsVaruint file.version) (hversion' : IsVaruint file'.version)
    (hdigest : file.hashOp = file'.hashOp → file.digest.length = file'.digest.length)
    (hitems : ∀ item ∈ file.items, item.Readable) (hitems' : ∀ item ∈ file'.items, item.Readable)
    (hne : file.items ≠ []) (hne' : file'.items ≠ []) (h : file.print = file'.print) :
    file = file' := by
  obtain ⟨version, hashOp, digest, items, trailing⟩ := file
  obtain ⟨version', hashOp', digest', items', trailing'⟩ := file'
  simp only [print, List.append_assoc, List.cons_append, List.nil_append,
    List.append_cancel_left_eq] at h
  obtain ⟨rfl, hbehind⟩ := hversion.append_inj hversion' h
  obtain ⟨rfl, htail⟩ := List.cons.inj hbehind
  obtain ⟨rfl, hnode⟩ := List.append_inj htail (hdigest rfl)
  obtain ⟨rfl, rfl⟩ := printItems_inj hitems hitems' hne hne' hnode
  rfl

theorem Readable.print_inj (h : file.Readable) (h' : file'.Readable)
    (hprint : file.print = file'.print) : file = file' := by
  apply ProofFile.print_inj (isVaruint_of_varuint h.version).1 (isVaruint_of_varuint h'.version).1
    ?_ h.items h'.items h.nonempty h'.nonempty hprint
  intro hhash
  rw [h.digest, h'.digest, hhash]

theorem length_items_le (file : ProofFile) :
    (printItems file.items).length ≤ file.print.length := by
  rw [print, List.length_append, List.length_append]
  omega

end ProofFile

theorem varuint_version : varuint (writeVaruint MAJOR_VERSION) = .ok (MAJOR_VERSION, []) := by
  have hread := varuint_write (n := MAJOR_VERSION) (by decide)
    (JsNumber.isDouble_of_lt (by decide)) []
  rwa [List.append_nil] at hread

/-- What is read of a file in the writer's order is spelled as the file where the file is plain. -/
theorem ProofFile.serialiseProof_iff (hA : A.Decodes) {file : ProofFile} (hfile : file.Readable)
    (hlen : file.print.length < 2 ^ 53) {attestations : List Attestation}
    {ops : List (AnchorOp × Timestamp)}
    (hmeaning : itemsMeaning H A file.digest file.items = .ok (attestations, ops))
    (hcanonical : file.Canonical (.mk file.digest attestations ops)) :
    serialiseProof file.digest (.mk file.digest attestations ops) = .ok file.print ↔
      file.Plain := by
  obtain ⟨hshaped, hnonempty⟩ := shaped_of_itemsMeaning hfile.nonempty hfile.items hmeaning
  obtain ⟨_, hderived⟩ := parseProof_derived (parseProof_print hfile hmeaning)
  have hitems := items_eq_iff_of (fun item hitem => (hfile.items item hitem).respelled hA)
    hcanonical.first hcanonical.grouped (file.length_items_le.trans_lt hlen) hmeaning
  rw [hnonempty.serialiseProof, hcanonical.sorted.sorted_eq]
  constructor
  · intro h
    have hprint := Except.ok.inj h
    have hwritten := ProofFile.length_items_le ⟨writeVaruint MAJOR_VERSION, 0x08, file.digest,
      (Timestamp.mk file.digest attestations ops).items, []⟩
    rw [hprint] at hwritten
    have hreadable := hnonempty.items_readable hderived hshaped (hwritten.trans_lt hlen)
    have hfiles : (⟨writeVaruint MAJOR_VERSION, 0x08, file.digest,
        (Timestamp.mk file.digest attestations ops).items, []⟩ : ProofFile) = file :=
      print_inj (isVaruint_of_varuint varuint_version).1 (isVaruint_of_varuint hfile.version).1
        (fun _ => rfl) hreadable hfile.items hnonempty.items_ne_nil hfile.nonempty hprint
    obtain ⟨version, hashOp, digest, items, trailing⟩ := file
    obtain ⟨rfl, rfl, _, hspelled, rfl⟩ := ProofFile.mk.inj hfiles
    exact ⟨rfl, rfl, hitems.mp hspelled, rfl⟩
  · rintro ⟨hversion, hhash, hplain, htrailing⟩
    rw [hitems.mpr hplain, ← hversion, ← hhash, ← htrailing]

/-- What is read of a written tree is the sorted tree where the tree is plain. -/
theorem Timestamp.NonEmpty.parseProof_iff (hA : A.Decodes) (hnonempty : t.NonEmpty)
    (hderived : t.Derived H A) {f : Bytes} (hf : Anchor.serialiseProof t.msg t = .ok f)
    (hlen : f.length < 2 ^ 53) :
    parseProof H A f = .ok (t.msg, t.sorted) ↔ t.msg.length = 32 ∧ t.Plain := by
  rw [hnonempty.serialiseProof] at hf
  obtain rfl := Except.ok.inj hf
  have hshort := (ProofFile.length_items_le _).trans_lt hlen
  have hsorted : t.sorted.NonEmpty := Timestamp.NonEmpty.sorted hnonempty
  obtain ⟨attestations, ops, heq⟩ :
      ∃ attestations ops, t.sorted = .mk t.sorted.msg attestations ops := by
    cases t.sorted with
    | mk msg attestations ops => exact ⟨attestations, ops, rfl⟩
  constructor
  · intro h
    obtain ⟨file, as, os, hfile, hprint, hdigest, hmeaning, hread⟩ := ProofFile.of_parseProof h
    have hshaped := (shaped_of_itemsMeaning hfile.nonempty hfile.items hmeaning).1
    rw [← hread] at hshaped
    have hreadable := hsorted.items_readable hderived.sorted hshaped hshort
    have hfiles := ProofFile.print_inj (isVaruint_of_varuint varuint_version).1
      (isVaruint_of_varuint hfile.version).1 (fun _ => congrArg List.length hdigest.symm) hreadable
      hfile.items hsorted.items_ne_nil hfile.nonempty hprint
    have hdigestlen := hfile.digest
    rw [← hfiles] at hmeaning hdigestlen
    refine ⟨hdigestlen, hnonempty.plain_sorted.mp ?_⟩
    apply (hshaped.items_meaning hA hderived.sorted hshort (hread.trans ?_)).mp
    · rw [msg_sorted]
      exact hmeaning
    · rw [msg_sorted]
  · rintro ⟨hdigest, hplain⟩
    have hplain' := hnonempty.plain_sorted.mpr hplain
    have hreadable := hsorted.items_readable hderived.sorted hplain'.shaped hshort
    have hmeaning := (hplain'.shaped.items_meaning hA hderived.sorted hshort heq).mpr hplain'
    rw [msg_sorted] at hmeaning heq
    have hfile : ProofFile.Readable
        ⟨writeVaruint MAJOR_VERSION, 0x08, t.msg, t.sorted.items, []⟩ :=
      ⟨varuint_version, hdigest, hsorted.items_ne_nil, hreadable⟩
    rw [ProofFile.parseProof_print hfile hmeaning, heq]

/-- **Round trips of proof files.** What is accepted is a file of the syntax. A file in the writer's
order is written again as it is where it is in the writer's spelling and about a SHA-256, and a
derived tree whose nodes say something is read back, sorted, where it is about 32 bytes and
plain. -/
theorem proofs_roundTrip (hA : A.Decodes) :
    (∀ f digest t, parseProof H A f = .ok (digest, t) →
      ∃ file : ProofFile, file.Readable ∧ file.print = f) ∧
    (∀ (file : ProofFile) digest t, file.Readable → file.print.length < 2 ^ 53 →
      parseProof H A file.print = .ok (digest, t) → file.Canonical t →
        (serialiseProof digest t = .ok file.print ↔ file.Plain)) ∧
    ∀ t : Timestamp, t.NonEmpty → t.Derived H A → ∃ f, serialiseProof t.msg t = .ok f ∧
      (f.length < 2 ^ 53 →
        (parseProof H A f = .ok (t.msg, t.sorted) ↔ t.msg.length = 32 ∧ t.Plain)) := by
  refine ⟨?_, ?_, ?_⟩
  · intro f digest t h
    obtain ⟨file, _, _, hfile, rfl, _⟩ := ProofFile.of_parseProof h
    exact ⟨file, hfile, rfl⟩
  · intro file digest t hfile hlen h hcanonical
    obtain ⟨file', attestations, ops, hfile', hprint, rfl, hmeaning, rfl⟩ :=
      ProofFile.of_parseProof h
    obtain rfl := hfile.print_inj hfile' hprint
    exact file.serialiseProof_iff hA hfile hlen hmeaning hcanonical
  · intro t hnonempty hderived
    have hf := hnonempty.serialiseProof t.msg
    exact ⟨_, hf, hnonempty.parseProof_iff hA hderived hf⟩

/-- The reference hash functions, and a decoder that ignores a byte order mark. -/
def decodingHost : AnchorHost :=
  { Reference.anchorHost with
    textDecode := fun b => withoutMark ((Reference.readText b).getD "") }

theorem decodingHost_decodes : decodingHost.Decodes := by
  intro text
  show withoutMark ((Reference.readText (utf8 text)).getD "") = _
  rw [Reference.readText_utf8, Option.getD_some]

/-- A tree about 32 bytes: a calendar is to anchor them, and a block what is made of them. -/
def appendedStamp : Timestamp :=
  .mk (List.replicate 32 0) [.pending "https://a"]
    [({ tag := 0xf0, arg := some [7] }, .mk (List.replicate 32 0 ++ [7]) [.bitcoin 5] [])]

/-- The file of the tree. -/
def appendedFile : ProofFile :=
  ⟨writeVaruint MAJOR_VERSION, 0x08, appendedStamp.msg, appendedStamp.items, []⟩

theorem proofs_roundTrip_appended :
    serialiseProof appendedStamp.msg appendedStamp = .ok appendedFile.print ∧
      parseProof Reference.host decodingHost appendedFile.print =
        .ok (appendedStamp.msg, appendedStamp) ∧ appendedFile.Plain := by
  have hnonempty : appendedStamp.NonEmpty := by
    refine .mk (.inl (List.cons_ne_nil _ _)) (List.forall_mem_singleton.mpr ?_)
    exact .mk (.inl (List.cons_ne_nil _ _)) (List.forall_mem_nil _)
  have hderived : appendedStamp.Derived Reference.host decodingHost :=
    .mk (List.forall_mem_singleton.mpr rfl)
      (List.forall_mem_singleton.mpr (Timestamp.derived_leaf _ _))
  have hsorted : appendedStamp.Sorted := by
    refine .mk (List.pairwise_singleton _ _) (List.pairwise_singleton _ _)
      (List.forall_mem_singleton.mpr ?_)
    exact .mk (List.pairwise_singleton _ _) .nil (List.forall_mem_nil _)
  have hplain : appendedStamp.Plain := by
    have hshaped : AnchorOp.Shaped { tag := 0xf0, arg := some [7] } :=
      ⟨fun _ => .inl rfl, fun _ => rfl⟩
    have hbare : Bare "https://a" := by
      rw [Bare]
      decide
    have hnumber : IsNumber 5 := ⟨by decide, JsNumber.isDouble_of_lt (by decide)⟩
    refine .mk (List.forall_mem_singleton.mpr hbare) (List.forall_mem_singleton.mpr hshaped)
      (List.forall_mem_singleton.mpr ?_)
    exact .mk (List.forall_mem_singleton.mpr hnumber) (List.forall_mem_nil _)
      (List.forall_mem_nil _)
  have hshort : appendedFile.print.length < 2 ^ 53 := by decide
  have hreadable : appendedFile.Readable :=
    ⟨varuint_version, rfl, List.cons_ne_nil _ _, hnonempty.items_readable hderived hplain.shaped
      ((ProofFile.length_items_le appendedFile).trans_lt hshort)⟩
  have hcanonical : appendedFile.Canonical appendedStamp := by
    refine ⟨List.pairwise_pair.mpr fun h => h.elim, ?_, hsorted⟩
    exact List.forall_mem_cons.mpr ⟨.attestation, List.forall_mem_singleton.mpr
      (.op (List.pairwise_singleton _ _) (List.forall_mem_singleton.mpr .attestation))⟩
  obtain ⟨_, hfiles, htrees⟩ := proofs_roundTrip (H := Reference.host) decodingHost_decodes
  obtain ⟨f, hf, hiff⟩ := htrees appendedStamp hnonempty hderived
  have hwritten := hnonempty.serialiseProof appendedStamp.msg
  rw [hsorted.sorted_eq] at hwritten hiff
  obtain rfl := Except.ok.inj (hf.symm.trans hwritten)
  have hread := (hiff hshort).mpr ⟨rfl, hplain⟩
  exact ⟨hf, hread, (hfiles appendedFile _ _ hreadable hshort hread hcanonical).mp hf⟩

/-- A file about a SHA-1, with one attestation. -/
def sha1File : ProofFile :=
  ⟨[1], 0x02, List.replicate 20 0, [spellAttestation (.bitcoin 5)], []⟩

/-- Bytes of which something unknown is attested. -/
def unknownStamp (payload : Bytes) : Timestamp :=
  .mk (List.replicate 32 0) [.unknown (List.replicate 8 1) payload] []

/-- A file about a SHA-1 is written as one about a SHA-256, and the payload of what is unknown does
not come back. -/
theorem round_trip_loses :
    (∃ t, parseProof Reference.host decodingHost sha1File.print = .ok (sha1File.digest, t) ∧
      sha1File.Canonical t ∧ serialiseProof sha1File.digest t ≠ .ok sha1File.print) ∧
    (unknownStamp [7]).NonEmpty ∧ (unknownStamp [7]).Derived Reference.host decodingHost ∧
      (unknownStamp [7]).sorted = unknownStamp [7] ∧
        ∃ f, serialiseProof (unknownStamp [7]).msg (unknownStamp [7]) = .ok f ∧
          parseProof Reference.host decodingHost f =
            .ok ((unknownStamp [7]).msg, unknownStamp []) ∧ unknownStamp [] ≠ unknownStamp [7] := by
  have hleaf : ∀ msg a, (Timestamp.mk msg [a] []).NonEmpty ∧ (Timestamp.mk msg [a] []).Sorted :=
    fun msg a => ⟨.mk (.inl (List.cons_ne_nil _ _)) (List.forall_mem_nil _),
      .mk (List.pairwise_singleton _ _) .nil (List.forall_mem_nil _)⟩
  constructor
  · obtain ⟨hnonempty, hsorted⟩ := hleaf sha1File.digest (.bitcoin 5)
    refine ⟨.mk sha1File.digest [.bitcoin 5] [], rfl, ⟨List.pairwise_singleton _ _,
      List.forall_mem_singleton.mpr .attestation, hsorted⟩, ?_⟩
    rw [hnonempty.serialiseProof, hsorted.sorted_eq]
    intro h
    have hbytes := Except.ok.inj h
    revert hbytes
    decide
  · obtain ⟨hnonempty, hsorted⟩ := hleaf (List.replicate 32 0) (.unknown (List.replicate 8 1) [7])
    have hwritten := hnonempty.serialiseProof (List.replicate 32 0)
    have hne : unknownStamp [] ≠ unknownStamp [7] := by
      intro h
      have hattested := (Timestamp.mk.inj h).2.1
      cases hattested
    refine ⟨hnonempty, Timestamp.derived_leaf _ _, hsorted.sorted_eq, _, hwritten, ?_, hne⟩
    rw [hsorted.sorted_eq]
    rfl

end CoolSdk.Anchor
