import CoolSdk.Phala.AnchorWriter

/-!
# The syntax of proof files

What a detached timestamp proof is written as, before its meaning: a node is a sequence of items,
and an item is an attestation or an operation with the node about its result. Every byte that is
read belongs to a token of the syntax, and the bytes determine the items.
-/

namespace CoolSdk.Anchor

/-- An item of a node, with the digits of its lengths. -/
inductive Item
  | attestation (tag len payload : Bytes)
  | op (tag : UInt8) (arg : Option (Bytes × Bytes)) (items : List Item)

/-- An argument behind the digits of its length, where there is one. -/
def printArg : Option (Bytes × Bytes) → Bytes
  | none => []
  | some (len, arg) => len ++ arg

mutual

/-- The bytes of an item. -/
def Item.print : Item → Bytes
  | .attestation tag len payload => 0x00 :: (tag ++ len ++ payload)
  | .op tag arg items => tag :: (printArg arg ++ printItems items)

/-- The bytes of a node: one announces each item but the first that follows it. -/
def printItems : List Item → Bytes
  | [] => []
  | item :: items => (if items.isEmpty then [] else [0xff]) ++ item.print ++ printItems items

end

/-- The argument that goes with a tag. -/
def ReadableArg (tag : UInt8) : Option (Bytes × Bytes) → Prop
  | none => ¬(tag = 0xf0 ∨ tag = 0xf1)
  | some (len, arg) => (tag = 0xf0 ∨ tag = 0xf1) ∧ varuint len = .ok (arg.length, [])

/-- Tags are those of the items they announce, lengths are what they say, and no node is empty. -/
inductive Item.Readable : Item → Prop
  | attestation {tag len payload : Bytes} (htag : tag.length = 8)
      (hlen : varuint len = .ok (payload.length, [])) : Readable (.attestation tag len payload)
  | op {tag : UInt8} {arg : Option (Bytes × Bytes)} {items : List Item}
      (htag : tag ≠ 0x00 ∧ tag ≠ 0xff) (harg : ReadableArg tag arg) (hne : items ≠ [])
      (h : ∀ item ∈ items, Readable item) : Readable (.op tag arg items)

section

variable (H : Host) (A : AnchorHost)

/-- What an attestation with a tag says. -/
def attested (tag payload : Bytes) : Except String Attestation :=
  if tag = TAG_PENDING then do
    let (uri, _) ← varbytes payload
    return .pending (A.textDecode uri)
  else if tag = TAG_BITCOIN then do
    let (height, _) ← varuint payload
    return .bitcoin height
  else if tag = TAG_LITECOIN then do
    let (height, _) ← varuint payload
    return .litecoin height
  else if tag = TAG_ETHEREUM then do
    let (height, _) ← varuint payload
    return .ethereum height
  else return .unknown tag []

mutual

/-- What an item says about a message. -/
def Item.meaning (msg : Bytes) :
    Item → Except String (List Attestation × List (AnchorOp × Timestamp))
  | .attestation tag _ payload => do
    let a ← attested A tag payload
    return ([a], [])
  | .op tag arg items => do
    let op : AnchorOp := { tag, arg := arg.map Prod.snd }
    let derived ← applyOp H A op msg
    let (attestations, ops) ← itemsMeaning derived items
    return ([], [(op, .mk derived attestations ops)])

/-- What a node says about its message. -/
def itemsMeaning (msg : Bytes) :
    List Item → Except String (List Attestation × List (AnchorOp × Timestamp))
  | [] => .ok ([], [])
  | item :: items => do
    let (attestations, ops) ← item.meaning msg
    let (attestations', ops') ← itemsMeaning msg items
    return (attestations ++ attestations', ops ++ ops')

end

end

variable {H : Host} {A : AnchorHost} {input rest : Bytes}

/-! ## Tokens -/

theorem takeBytes_eq_ok {n : Nat} {b : Bytes} :
    takeBytes n input = .ok (b, rest) ↔ b.length = n ∧ input = b ++ rest := by
  rw [takeBytes]
  constructor
  · intro h
    split_ifs at h with hlen
    rw [List.splitAt_eq] at h
    obtain ⟨rfl, rfl⟩ := Prod.mk.inj (Except.ok.inj h)
    exact ⟨List.length_take_of_le (not_lt.mp hlen), (List.take_append_drop n input).symm⟩
  · rintro ⟨rfl, rfl⟩
    rw [if_neg (by rw [List.length_append]; omega), List.splitAt_eq, List.take_left,
      List.drop_left]

theorem varbytes_eq_ok {b : Bytes} :
    varbytes input = .ok (b, rest) ↔
      ∃ len, varuint len = .ok (b.length, []) ∧ input = len ++ b ++ rest := by
  rw [varbytes, bind_eq_ok]
  constructor
  · rintro ⟨⟨n, behind⟩, hlen, h⟩
    obtain ⟨hb, rfl⟩ := takeBytes_eq_ok.mp h
    obtain ⟨len, _, _, rfl, _, hread⟩ := varuint_split hlen
    refine ⟨len, ?_, (List.append_assoc _ _ _).symm⟩
    have hself := hread []
    rw [List.append_nil] at hself
    rw [hb]
    exact hself
  · rintro ⟨len, hlen, rfl⟩
    refine ⟨(b.length, b ++ rest), ?_, takeBytes_eq_ok.mpr ⟨rfl, rfl⟩⟩
    rw [List.append_assoc]
    exact varuint_append hlen _

theorem readAttestation_eq (input : Bytes) :
    readAttestation A input = do
      let (tag, input) ← takeBytes 8 input
      let (payload, input) ← varbytes input
      let a ← attested A tag payload
      return (a, input) := by
  rw [readAttestation]
  cases takeBytes 8 input with
  | error e => rfl
  | ok p =>
    rw [ok_bind, ok_bind]
    dsimp only
    cases varbytes p.2 with
    | error e => rfl
    | ok q =>
      rw [ok_bind, ok_bind, attested]
      dsimp only
      split_ifs
      · cases varbytes q.1 <;> rfl
      · cases varuint q.1 <;> rfl
      · cases varuint q.1 <;> rfl
      · cases varuint q.1 <;> rfl
      · rfl

/-- An attestation is read from its tag, its payload and the digits of the payload's length. -/
theorem readAttestation_eq_ok {a : Attestation} :
    readAttestation A input = .ok (a, rest) ↔ ∃ tag len payload, tag.length = 8 ∧
      varuint len = .ok (payload.length, []) ∧ input = tag ++ len ++ payload ++ rest ∧
        attested A tag payload = .ok a := by
  rw [readAttestation_eq]
  simp only [bind_eq_ok, Prod.exists, takeBytes_eq_ok, varbytes_eq_ok]
  constructor
  · rintro ⟨tag, _, ⟨htag, rfl⟩, payload, _, ⟨len, hlen, rfl⟩, a', ha, h⟩
    cases h
    exact ⟨tag, len, payload, htag, hlen, by simp only [List.append_assoc], ha⟩
  · rintro ⟨tag, len, payload, htag, hlen, rfl, ha⟩
    exact ⟨tag, len ++ payload ++ rest, ⟨htag, by simp only [List.append_assoc]⟩, payload, rest,
      ⟨len, hlen, rfl⟩, a, ha, rfl⟩

theorem readOp_eq_ok {tag : UInt8} {op : AnchorOp} :
    readOp tag input = .ok (op, rest) ↔ ∃ arg, ReadableArg tag arg ∧
      input = printArg arg ++ rest ∧ op = { tag, arg := arg.map Prod.snd } := by
  rw [readOp]
  split_ifs with htag
  · simp only [bind_eq_ok, Prod.exists, varbytes_eq_ok]
    constructor
    · rintro ⟨arg, _, ⟨len, hlen, rfl⟩, h⟩
      cases h
      exact ⟨some (len, arg), ⟨htag, hlen⟩, rfl, rfl⟩
    · rintro ⟨arg, harg, rfl, rfl⟩
      cases arg with
      | none => exact absurd htag harg
      | some pair => exact ⟨pair.2, rest, ⟨pair.1, harg.2, rfl⟩, rfl⟩
  · constructor
    · intro h
      cases h
      exact ⟨none, htag, rfl, rfl⟩
    · rintro ⟨arg, harg, rfl, rfl⟩
      cases arg with
      | none => rfl
      | some pair => exact absurd harg.1 htag

/-! ## Reading items -/

theorem applyOp_ff (arg : Option Bytes) (msg : Bytes) :
    ∀ derived, applyOp H A { tag := 0xff, arg } msg ≠ .ok derived := by
  intro derived h
  cases h

/-- A reader of nodes reads the items it takes off the front. -/
def ReadsItems (H : Host) (A : AnchorHost)
    (next : Bytes → Bytes → Except String (Timestamp × Bytes)) : Prop :=
  ∀ {msg input t rest}, next msg input = .ok (t, rest) → ∃ items attestations ops, items ≠ [] ∧
    (∀ item ∈ items, item.Readable) ∧ input = printItems items ++ rest ∧
      itemsMeaning H A msg items = .ok (attestations, ops) ∧ t = .mk msg attestations ops

theorem readOne_eq_ok {next : Bytes → Bytes → Except String (Timestamp × Bytes)}
    (hnext : ReadsItems H A next) {msg : Bytes} {tag : UInt8} {attestations : List Attestation}
    {ops : List (AnchorOp × Timestamp)}
    (h : readOne H A next msg tag input = .ok (attestations, ops, rest)) :
    ∃ item : Item, item.Readable ∧ tag :: input = item.print ++ rest ∧
      item.meaning H A msg = .ok (attestations, ops) := by
  rw [readOne] at h
  split_ifs at h with htag
  · obtain ⟨⟨a, _⟩, ha, h⟩ := bind_eq_ok.mp h
    cases h
    obtain ⟨t, len, payload, ht, hlen, rfl, hval⟩ := readAttestation_eq_ok.mp ha
    refine ⟨.attestation t len payload, .attestation ht hlen, ?_, ?_⟩
    · rw [Item.print, htag]
      rfl
    · rw [Item.meaning, hval]
      rfl
  · simp only [bind_eq_ok] at h
    obtain ⟨⟨op, _⟩, hop, derived, happly, ⟨stamp, _⟩, hstamp, h⟩ := h
    cases h
    obtain ⟨arg, harg, rfl, rfl⟩ := readOp_eq_ok.mp hop
    obtain ⟨items, attestations, ops, hne, hitems, rfl, hmeaning, rfl⟩ := hnext hstamp
    have hff : tag ≠ 0xff := by
      rintro rfl
      exact applyOp_ff _ _ _ happly
    refine ⟨.op tag arg items, .op ⟨htag, hff⟩ harg hne hitems, ?_, ?_⟩
    · rw [Item.print, List.cons_append, List.append_assoc]
    · rw [Item.meaning, happly, ok_bind, hmeaning]
      rfl

theorem printItems_cons (item : Item) {items : List Item} (h : items ≠ []) :
    printItems (item :: items) = 0xff :: (item.print ++ printItems items) := by
  cases items with
  | nil => exact absurd rfl h
  | cons item' items =>
    rw [printItems]
    rfl

theorem printItems_singleton (item : Item) : printItems [item] = item.print := by
  rw [printItems, printItems]
  exact List.append_nil _

theorem itemsMeaning_cons {msg : Bytes} {item : Item} {items : List Item}
    {attestations attestations' : List Attestation} {ops ops' : List (AnchorOp × Timestamp)}
    (h : item.meaning H A msg = .ok (attestations, ops))
    (h' : itemsMeaning H A msg items = .ok (attestations', ops')) :
    itemsMeaning H A msg (item :: items) = .ok (attestations ++ attestations', ops ++ ops') := by
  rw [itemsMeaning, h, ok_bind]
  dsimp only
  rw [h']
  rfl

theorem itemsMeaning_singleton {msg : Bytes} {item : Item} {attestations : List Attestation}
    {ops : List (AnchorOp × Timestamp)} (h : item.meaning H A msg = .ok (attestations, ops)) :
    itemsMeaning H A msg [item] = .ok (attestations, ops) := by
  have hone := itemsMeaning_cons h (show itemsMeaning H A msg [] = .ok ([], []) from rfl)
  rwa [List.append_nil, List.append_nil] at hone

theorem readByte_eq_ok {b : UInt8} : readByte input = .ok (b, rest) ↔ input = b :: rest := by
  cases input with
  | nil =>
    constructor
    · intro h
      cases h
    · intro h
      cases h
  | cons x input =>
    constructor
    · intro h
      cases h
      rfl
    · intro h
      cases h
      rfl

/-- The reader reads a node as the items it is written as. -/
theorem readTimestamp_reads (fuel : Nat) : ReadsItems H A (readTimestamp H A fuel) := by
  induction fuel with
  | zero => exact fun h => nomatch h
  | succ fuel ih =>
    intro msg input t rest h
    rw [readTimestamp] at h
    obtain ⟨⟨tag, behind⟩, hbyte, hnode⟩ := bind_eq_ok.mp h
    rw [readByte_eq_ok.mp hbyte]
    dsimp only at hnode
    split_ifs at hnode with hff
    · simp only [bind_eq_ok] at hnode
      obtain ⟨⟨tag', _⟩, hbyte', ⟨attestations, ops, _⟩, hone, ⟨stamp, _⟩, hmore, hnode⟩ := hnode
      obtain rfl := readByte_eq_ok.mp hbyte'
      obtain ⟨item, hitem, hprint, hmeaning⟩ := readOne_eq_ok ih hone
      obtain ⟨items, attestations', ops', hne, hitems, rfl, hmeanings, rfl⟩ := ih hmore
      cases hnode
      refine ⟨item :: items, _, _, List.cons_ne_nil _ _, List.forall_mem_cons.mpr ⟨hitem, hitems⟩,
        ?_, itemsMeaning_cons hmeaning hmeanings, rfl⟩
      dsimp only at hprint
      rw [hff, printItems_cons item hne, hprint, List.cons_append, List.append_assoc]
    · obtain ⟨⟨attestations, ops, _⟩, hone, hnode⟩ := bind_eq_ok.mp hnode
      cases hnode
      obtain ⟨item, hitem, hprint, hmeaning⟩ := readOne_eq_ok ih hone
      refine ⟨[item], _, _, List.cons_ne_nil _ _, List.forall_mem_singleton.mpr hitem, ?_,
        itemsMeaning_singleton hmeaning, rfl⟩
      rw [printItems_singleton]
      exact hprint

/-- The first byte of an item announces no other. -/
theorem Item.Readable.print_head {item : Item} (h : item.Readable) :
    ∃ tag tail, item.print = tag :: tail ∧ tag ≠ 0xff := by
  cases h with
  | attestation htag hlen => exact ⟨_, _, by rw [Item.print], by decide⟩
  | op htag harg hne h => exact ⟨_, _, by rw [Item.print], htag.2⟩

/-- What one item says is read from its bytes. -/
theorem readOne_print {next : Bytes → Bytes → Except String (Timestamp × Bytes)} {item : Item}
    {msg : Bytes} {tag : UInt8} {tail : Bytes} {attestations : List Attestation}
    {ops : List (AnchorOp × Timestamp)} (h : item.Readable) (hprint : item.print = tag :: tail)
    (hmeaning : item.meaning H A msg = .ok (attestations, ops))
    (hnext : ∀ {items msg attestations ops} rest, items ≠ [] → (∀ item ∈ items, item.Readable) →
      (printItems items).length ≤ tail.length →
      itemsMeaning H A msg items = .ok (attestations, ops) →
      next msg (printItems items ++ rest) = .ok (.mk msg attestations ops, rest)) (rest : Bytes) :
    readOne H A next msg tag (tail ++ rest) = .ok (attestations, ops, rest) := by
  cases h with
  | @attestation t len payload htag hlen =>
    rw [Item.print] at hprint
    obtain ⟨rfl, rfl⟩ := List.cons.inj hprint
    rw [Item.meaning] at hmeaning
    obtain ⟨a, ha, hmeaning⟩ := bind_eq_ok.mp hmeaning
    cases hmeaning
    have hread : readAttestation A (t ++ len ++ payload ++ rest) = .ok (a, rest) :=
      readAttestation_eq_ok.mpr ⟨t, len, payload, htag, hlen, rfl, ha⟩
    rw [readOne, if_pos rfl, hread]
    rfl
  | @op t arg items htag harg hne hitems =>
    rw [Item.print] at hprint
    obtain ⟨rfl, rfl⟩ := List.cons.inj hprint
    rw [Item.meaning] at hmeaning
    obtain ⟨derived, happly, hmeaning⟩ := bind_eq_ok.mp hmeaning
    obtain ⟨⟨attestations', ops'⟩, hbelow, hmeaning⟩ := bind_eq_ok.mp hmeaning
    cases hmeaning
    have hop : readOp t (printArg arg ++ printItems items ++ rest) =
        .ok ({ tag := t, arg := arg.map Prod.snd }, printItems items ++ rest) :=
      readOp_eq_ok.mpr ⟨arg, harg, List.append_assoc _ _ _, rfl⟩
    have hstamp := hnext rest hne hitems (by rw [List.length_append]; omega) hbelow
    rw [readOne, if_neg htag.1, hop, ok_bind]
    dsimp only
    rw [happly, ok_bind, hstamp]
    rfl

/-- What is written as readable items is read as what they say. -/
theorem readTimestamp_print {items : List Item} {msg : Bytes} {attestations : List Attestation}
    {ops : List (AnchorOp × Timestamp)} {fuel : Nat} (hne : items ≠ [])
    (hitems : ∀ item ∈ items, item.Readable)
    (hmeaning : itemsMeaning H A msg items = .ok (attestations, ops))
    (hfuel : (printItems items).length < fuel) (rest : Bytes) :
    readTimestamp H A fuel msg (printItems items ++ rest) =
      .ok (.mk msg attestations ops, rest) := by
  induction fuel generalizing items msg attestations ops rest with
  | zero => omega
  | succ fuel ih =>
    cases items with
    | nil => exact absurd rfl hne
    | cons item items =>
      rw [List.forall_mem_cons] at hitems
      obtain ⟨tag, tail, hprint, hff⟩ := hitems.1.print_head
      rw [itemsMeaning] at hmeaning
      obtain ⟨⟨atts, os⟩, hone, hmeaning⟩ := bind_eq_ok.mp hmeaning
      obtain ⟨⟨atts', os'⟩, hmore, hmeaning⟩ := bind_eq_ok.mp hmeaning
      cases hmeaning
      have hread : ∀ rest, tail.length < fuel →
          readOne H A (readTimestamp H A fuel) msg tag (tail ++ rest) = .ok (atts, os, rest) := by
        intro rest htail
        apply readOne_print hitems.1 hprint hone
        intro items msg atts os rest hne hitems hlen hmeaning
        exact ih hne hitems hmeaning (hlen.trans_lt htail) rest
      by_cases hlast : items = []
      · subst hlast
        rw [printItems_singleton, hprint, List.length_cons] at hfuel
        cases hmore
        rw [printItems_singleton, hprint, List.cons_append, readTimestamp, readByte, ok_bind]
        dsimp only
        rw [if_neg hff, hread rest (by omega), List.append_nil, List.append_nil]
        rfl
      · rw [printItems_cons item hlast, hprint, List.length_cons, List.length_append,
          List.length_cons] at hfuel
        have hbehind := ih hlast hitems.2 hmore (by omega) rest
        rw [printItems_cons item hlast, hprint, List.cons_append, List.cons_append,
          List.cons_append, List.append_assoc, readTimestamp, readByte, ok_bind]
        dsimp only
        rw [if_pos rfl, readByte, ok_bind]
        dsimp only
        rw [hread _ (by omega), ok_bind]
        dsimp only
        rw [hbehind]
        rfl

/-! ## Unique readability -/

/-- An item whose bytes determine it. -/
def Item.Determined (item : Item) : Prop :=
  ∀ {item' : Item} {rest rest' : Bytes}, item'.Readable →
    item.print ++ rest = item'.print ++ rest' → item = item' ∧ rest = rest'

/-- Whether another item follows is seen from the first byte. -/
theorem printItems_inj_of {items items' : List Item} {rest' : Bytes}
    (hdetermined : ∀ item ∈ items, item.Determined) (hitems : ∀ item ∈ items, item.Readable)
    (hitems' : ∀ item ∈ items', item.Readable) (hne : items ≠ []) (hne' : items' ≠ [])
    (heq : printItems items ++ rest = printItems items' ++ rest') :
    items = items' ∧ rest = rest' := by
  induction items generalizing items' with
  | nil => exact absurd rfl hne
  | cons item items ih =>
    cases items' with
    | nil => exact absurd rfl hne'
    | cons item' items' =>
      rw [List.forall_mem_cons] at hdetermined hitems hitems'
      obtain ⟨tag, tail, hprint, hff⟩ := hitems.1.print_head
      obtain ⟨tag', tail', hprint', hff'⟩ := hitems'.1.print_head
      by_cases hlast : items = []
      · by_cases hlast' : items' = []
        · rw [hlast, hlast', printItems_singleton, printItems_singleton] at heq
          obtain ⟨rfl, hrest⟩ := hdetermined.1 hitems'.1 heq
          exact ⟨by rw [hlast, hlast'], hrest⟩
        · rw [hlast, printItems_singleton, printItems_cons item' hlast', hprint] at heq
          exact absurd (List.cons.inj heq).1 hff
      · by_cases hlast' : items' = []
        · rw [hlast', printItems_singleton, printItems_cons item hlast, hprint'] at heq
          exact absurd (List.cons.inj heq).1.symm hff'
        · rw [printItems_cons item hlast, printItems_cons item' hlast', List.cons_append,
            List.cons_append, List.append_assoc, List.append_assoc] at heq
          obtain ⟨rfl, hmore⟩ := hdetermined.1 hitems'.1 (List.cons.inj heq).2
          obtain ⟨rfl, hrest⟩ := ih hdetermined.2 hitems.2 hitems'.2 hlast hlast' hmore
          exact ⟨rfl, hrest⟩

theorem printArg_inj {tag : UInt8} {arg arg' : Option (Bytes × Bytes)} {rest' : Bytes}
    (h : ReadableArg tag arg) (h' : ReadableArg tag arg')
    (heq : printArg arg ++ rest = printArg arg' ++ rest') : arg = arg' ∧ rest = rest' := by
  cases arg with
  | none =>
    cases arg' with
    | none => exact ⟨rfl, heq⟩
    | some pair => exact absurd h'.1 h
  | some pair =>
    cases arg' with
    | none => exact absurd h.1 h'
    | some pair' =>
      obtain ⟨len, arg⟩ := pair
      obtain ⟨len', arg'⟩ := pair'
      rw [printArg, printArg, List.append_assoc, List.append_assoc] at heq
      obtain ⟨rfl, hbehind⟩ :=
        (isVaruint_of_varuint h.2).1.append_inj (isVaruint_of_varuint h'.2).1 heq
      have hlen := (Prod.mk.inj (Except.ok.inj (h.2.symm.trans h'.2))).1
      obtain ⟨rfl, hrest⟩ := List.append_inj hbehind hlen
      exact ⟨rfl, hrest⟩

/-- **The bytes determine the item**, and where it ends. -/
theorem Item.Readable.determined {item : Item} (h : item.Readable) : item.Determined := by
  induction h with
  | @attestation tag len payload htag hlen =>
    intro item' rest rest' h' heq
    cases h' with
    | @attestation tag' len' payload' htag' hlen' =>
      rw [Item.print, Item.print, List.cons_append, List.cons_append] at heq
      have htail := (List.cons.inj heq).2
      simp only [List.append_assoc] at htail
      obtain ⟨rfl, hlens⟩ := List.append_inj htail (htag.trans htag'.symm)
      obtain ⟨rfl, hpayloads⟩ :=
        (isVaruint_of_varuint hlen).1.append_inj (isVaruint_of_varuint hlen').1 hlens
      have hlength := (Prod.mk.inj (Except.ok.inj (hlen.symm.trans hlen'))).1
      obtain ⟨rfl, hrest⟩ := List.append_inj hpayloads hlength
      exact ⟨rfl, hrest⟩
    | op htag' =>
      rw [Item.print, Item.print] at heq
      exact absurd (List.cons.inj heq).1.symm htag'.1
  | @op tag arg items htag harg hne hitems ih =>
    intro item' rest rest' h' heq
    cases h' with
    | attestation =>
      rw [Item.print, Item.print] at heq
      exact absurd (List.cons.inj heq).1 htag.1
    | @op tag' arg' items' htag' harg' hne' hitems' =>
      rw [Item.print, Item.print, List.cons_append, List.cons_append, List.append_assoc,
        List.append_assoc] at heq
      obtain ⟨rfl, htail⟩ := List.cons.inj heq
      obtain ⟨rfl, hnodes⟩ := printArg_inj harg harg' htail
      obtain ⟨rfl, hrest⟩ := printItems_inj_of ih hitems hitems' hne hne' hnodes
      exact ⟨rfl, hrest⟩

/-- The bytes of a node determine its items. -/
theorem printItems_inj {items items' : List Item} {rest' : Bytes}
    (hitems : ∀ item ∈ items, item.Readable) (hitems' : ∀ item ∈ items', item.Readable)
    (hne : items ≠ []) (hne' : items' ≠ [])
    (heq : printItems items ++ rest = printItems items' ++ rest') :
    items = items' ∧ rest = rest' :=
  printItems_inj_of (fun item hitem => (hitems item hitem).determined) hitems hitems' hne hne' heq

/-! ## Files -/

/-- A detached proof file behind its magic bytes. -/
structure ProofFile where
  /-- The digits of the version. -/
  version : Bytes
  hashOp : UInt8
  digest : Bytes
  items : List Item
  /-- What is behind the proof; a reader does not look at it. -/
  trailing : Bytes

namespace ProofFile

def print (file : ProofFile) : Bytes :=
  HEADER_MAGIC ++ file.version ++ [file.hashOp] ++ file.digest ++ printItems file.items ++
    file.trailing

structure Readable (file : ProofFile) : Prop where
  version : varuint file.version = .ok (MAJOR_VERSION, [])
  digest : file.digest.length = if file.hashOp = 0x08 ∨ file.hashOp = 0x67 then 32 else 20
  nonempty : file.items ≠ []
  items : ∀ item ∈ file.items, item.Readable

/-- The file is the proof of what it says about its digest. -/
theorem parseProof_print {file : ProofFile} (h : file.Readable) {attestations : List Attestation}
    {ops : List (AnchorOp × Timestamp)}
    (hmeaning : itemsMeaning H A file.digest file.items = .ok (attestations, ops)) :
    parseProof H A file.print = .ok (file.digest, .mk file.digest attestations ops) := by
  have hmagic : takeBytes HEADER_MAGIC.length file.print = .ok (HEADER_MAGIC,
      file.version ++ (file.hashOp :: (file.digest ++ (printItems file.items ++
        file.trailing)))) := by
    rw [takeBytes_eq_ok]
    exact ⟨rfl, by simp only [print, List.append_assoc, List.cons_append, List.nil_append]⟩
  have hdigest : takeBytes (if file.hashOp = 0x08 ∨ file.hashOp = 0x67 then 32 else 20)
      (file.digest ++ (printItems file.items ++ file.trailing)) =
        .ok (file.digest, printItems file.items ++ file.trailing) :=
    takeBytes_eq_ok.mpr ⟨h.digest, rfl⟩
  have hfuel : (printItems file.items).length <
      (printItems file.items ++ file.trailing).length + 1 := by
    rw [List.length_append]
    omega
  have hproof := readTimestamp_print h.nonempty h.items hmeaning hfuel file.trailing
  rw [parseProof, hmagic, ok_bind]
  dsimp only
  rw [if_neg (not_not_intro rfl), varuint_append h.version, ok_bind]
  dsimp only
  rw [if_neg (not_not_intro rfl), readByte, ok_bind]
  dsimp only
  rw [hdigest, ok_bind]
  dsimp only
  rw [hproof]
  rfl

/-- **What is accepted is a file of the syntax**, and is about what its items say. -/
theorem of_parseProof {bytes digest : Bytes} {t : Timestamp}
    (h : parseProof H A bytes = .ok (digest, t)) :
    ∃ (file : ProofFile) (attestations : List Attestation) (ops : List (AnchorOp × Timestamp)),
      file.Readable ∧ bytes = file.print ∧ file.digest = digest ∧
        itemsMeaning H A digest file.items = .ok (attestations, ops) ∧
          t = .mk digest attestations ops := by
  rw [parseProof] at h
  obtain ⟨⟨magic, behind⟩, hmagic, hversioned⟩ := bind_eq_ok.mp h
  rw [(takeBytes_eq_ok.mp hmagic).2]
  dsimp only at hversioned
  split_ifs at hversioned with hheader
  · cases hversioned
  · obtain ⟨⟨number, behind'⟩, hversion, hbody⟩ := bind_eq_ok.mp hversioned
    dsimp only at hbody
    split_ifs at hbody with hmajor
    · cases hbody
    · simp only [bind_eq_ok] at hbody
      obtain ⟨⟨hashOp, _⟩, hbyte, ⟨about, _⟩, htake, ⟨stamp, trailing⟩, hread, hbody⟩ := hbody
      cases hbody
      obtain rfl := readByte_eq_ok.mp hbyte
      obtain ⟨hlength, rfl⟩ := takeBytes_eq_ok.mp htake
      obtain ⟨items, attestations, ops, hne, hitems, rfl, hmeaning, rfl⟩ :=
        readTimestamp_reads _ hread
      obtain ⟨version, _, _, rfl, _, hself⟩ := varuint_split hversion
      have hnumber := hself []
      rw [List.append_nil, not_not.mp hmajor] at hnumber
      refine ⟨⟨version, hashOp, _, items, trailing⟩, attestations, ops,
        ⟨hnumber, hlength, hne, hitems⟩, ?_, rfl, hmeaning, rfl⟩
      simp only [print, not_not.mp hheader, List.append_assoc, List.cons_append, List.nil_append]

end ProofFile

end CoolSdk.Anchor
