import CoolSdk.Core.OrderedMap
import CoolSdk.Platform.DerScalars
import CoolSdk.Runtime.Doubles

/-!
# Fields of DER structures

Access to the elements inside an element, the times of certificates and tokens, and the extensions
of a certificate. Every element that is reached from what was parsed is read from bytes of its own,
and is so under another constructed tag as well.
-/

namespace CoolSdk

namespace TAG

def BOOLEAN : UInt8 := 0x01

def OCTET_STRING : UInt8 := 0x04

def NULL : UInt8 := 0x05

def UTC_TIME : UInt8 := 0x17

def GENERALIZED_TIME : UInt8 := 0x18

end TAG

/-! ## Access -/

def child (n : DerNode) (i : Nat) (what : String) : Except DerError DerNode :=
  match n.children[i]? with
  | none => .error ⟨"missing " ++ what⟩
  | some c => .ok c

/-- `expectTag(child(n, i, what), tag, what)`. -/
def childTagged (n : DerNode) (i : Nat) (tag : UInt8) (what : String) :
    Except DerError DerNode := do
  let c ← child n i what
  expectTag c tag what

/-- The content of an octet string. -/
def octets (n : DerNode) (i : Nat) (what : String) : Except DerError Bytes := do
  let c ← childTagged n i TAG.OCTET_STRING what
  return c.content

/-- `decodeOid(child(n, i, what))`. -/
def oidAt (n : DerNode) (i : Nat) (what : String) : Except DerError String := do
  let c ← child n i what
  decodeOid c

/-! ## Times -/

/-- Days from the epoch to a day of the proleptic Gregorian calendar. -/
def daysOfCivil (year month day : Int) : Int :=
  let y := if month ≤ 2 then year - 1 else year
  let era := y / 400
  let yoe := y - era * 400
  let doy := (153 * ((month + 9) % 12) + 2) / 5 + day - 1
  era * 146097 + (yoe * 365 + yoe / 4 - yoe / 100 + doy) - 719468

/-- `Date.UTC`: the month counts from zero, and every part may be beyond its range. -/
def dateUTC (year month day hours minutes seconds : Int) : Int :=
  let year := if 0 ≤ year ∧ year ≤ 99 then 1900 + year else year
  let days := daysOfCivil (year + month / 12) (month % 12 + 1) 1 + (day - 1)
  days * 86400000 + hours * 3600000 + minutes * 60000 + seconds * 1000

example : dateUTC 2026 10 2 16 7 28 = 1793635648000 := by decide

/-- So many digits at the start of a text: their number, and what is left. -/
def takeDigits (count : Nat) (text : List Char) : Option (Int × List Char) :=
  let digits := text.take count
  if digits.length = count ∧ digits.all Char.isDigit then
    some ((Nat.ofDigitChars 10 digits 0 : Nat), text.drop count)
  else none

/-- `(\d{2})` five times: month, day, hours, minutes and seconds under a year. -/
def matchTime (year : Int) (text : List Char) : Option (Int × List Char) := do
  let (month, text) ← takeDigits 2 text
  let (day, text) ← takeDigits 2 text
  let (hours, text) ← takeDigits 2 text
  let (minutes, text) ← takeDigits 2 text
  let (seconds, text) ← takeDigits 2 text
  return (dateUTC year (month - 1) day hours minutes seconds, text)

/-- ``Math.floor(Number(`0.${digits}`) * 1000)``. -/
def millisOf (digits : List Char) : Int :=
  let fraction : ℚ := (Nat.ofDigitChars 10 digits 0 : Nat) / (10 ^ digits.length : Nat)
  match (JsNumber.round fraction).thousandfold with
  | .finite q => q.floor
  | _ => 0

/-- `(?:\.(\d{1,9}))?Z$`: the milliseconds of a fraction. -/
def matchFraction : List Char → Option Int
  | ['Z'] => some 0
  | '.' :: rest =>
    let digits := rest.dropLast
    if rest.getLast? = some 'Z' ∧ digits ≠ [] ∧ digits.length ≤ 9 ∧ digits.all Char.isDigit then
      some (millisOf digits)
    else none
  | _ => none

def matchGeneralizedTime (text : List Char) : Option Int := do
  let (year, text) ← takeDigits 4 text
  let (ms, text) ← matchTime year text
  let fraction ← matchFraction text
  return ms + fraction

def matchUtcTime (text : List Char) : Option Int := do
  let (yy, text) ← takeDigits 2 text
  let (ms, text) ← matchTime (if yy < 50 then 2000 + yy else 1900 + yy) text
  if text = ['Z'] then some ms else none

/-- Milliseconds from the epoch; `decodeText` is `new TextDecoder().decode`. -/
def decodeTime (decodeText : Bytes → String) (n : DerNode) : Except DerError Int :=
  let s := decodeText n.content
  if n.tag = TAG.GENERALIZED_TIME then
    match matchGeneralizedTime s.toList with
    | some ms => .ok ms
    | none => .error ⟨"bad GeneralizedTime " ++ s⟩
  else if n.tag = TAG.UTC_TIME then
    match matchUtcTime s.toList with
    | some ms => .ok ms
    | none => .error ⟨"bad UTCTime " ++ s⟩
  else .error ⟨"expected a time"⟩

example : matchGeneralizedTime "20261102160728.057Z".toList = some 1793635648057 := by
  decide +kernel

/-! ## Extensions -/

structure Extension where
  critical : Bool
  value : Bytes
  deriving DecidableEq, Repr

/-- An extension with its identifier. -/
def readExtension (e : DerNode) : Except DerError (String × Extension) := do
  let id ← oidAt e 0 "extnID"
  let critical := decide (e.children.length = 3) && (e.children[1]?).any fun flag =>
    decide (flag.tag = TAG.BOOLEAN) && decide (flag.content.head? ≠ some 0)
  let value ← octets e (e.children.length - 1) "extnValue"
  return (id, { critical, value })

/-- The extensions of a certificate by identifier; of two under one, the last. -/
def certificateExtensions (certDer : Bytes) : Except DerError (OrderedMap String Extension) := do
  let cert ← parseDer certDer
  let tbs ← child cert 0 "tbsCertificate"
  match tbs.children.find? fun c => decide (c.tag = 0xa3) with
  | none => return .empty
  | some extWrap =>
    let exts ← childTagged extWrap 0 TAG.SEQUENCE "extensions"
    let read ← exts.children.mapM readExtension
    return .ofList read

/-! ## Elements that were read -/

/-- An element that the reader builds. -/
def DerNode.IsRead (n : DerNode) : Prop :=
  ∃ t : DerTree, t.Fits ∧ t.nesting ≤ MAX_DEPTH ∧ t.node = n

variable {n c : DerNode} {i : Nat} {tag : UInt8} {what : String} {buf : Bytes}

theorem isRead_of_parseDer (h : parseDer buf = .ok n) : n.IsRead := by
  obtain ⟨t, hfits, hlevels, -, hnode⟩ := parseDer_iff.mp h
  exact ⟨t, hfits, hlevels, hnode⟩

theorem DerNode.IsRead.of_mem (hn : n.IsRead) (hc : c ∈ n.children) : c.IsRead := by
  obtain ⟨t, hfits, hlevels, rfl⟩ := hn
  cases hfits with
  | leaf _ _ _ => cases hc
  | branch _ _ _ hchildren =>
    change c ∈ DerTree.nodes _ at hc
    rw [nodes_eq] at hc
    obtain ⟨t, ht, rfl⟩ := List.mem_map.mp hc
    exact ⟨t, hchildren t ht, (nestingAll_le_iff.mp hlevels t ht).le, rfl⟩

theorem mem_of_child (h : child n i what = .ok c) : c ∈ n.children := by
  rw [child] at h
  split at h
  · cases h
  · rename_i c' hc
    cases h
    exact List.mem_of_getElem? hc

theorem expectTag_iff : expectTag n tag what = .ok c ↔ n.tag = tag ∧ c = n := by
  rw [expectTag]
  dsimp only
  split_ifs with htag
  · exact iff_of_false nofun fun h => htag h.1
  · rw [not_not] at htag
    constructor
    · intro h
      exact ⟨htag, (Except.ok.inj h).symm⟩
    · rintro ⟨-, rfl⟩
      rfl

theorem childTagged_spec (h : childTagged n i tag what = .ok c) :
    c ∈ n.children ∧ c.tag = tag := by
  obtain ⟨c', hc', h⟩ := bind_eq_ok.mp h
  obtain ⟨htag, rfl⟩ := expectTag_iff.mp h
  exact ⟨mem_of_child hc', htag⟩

/-- The bytes of an element with another tag in front. -/
def retagged (tag : UInt8) (n : DerNode) : Bytes :=
  match n.raw with
  | [] => []
  | _ :: rest => tag :: rest

/-- A constructed element under another constructed tag is read back with the same elements
inside. -/
theorem parseDer_retagged (hn : n.IsRead) (hnode : isConstructed n.tag = true)
    (htag : isMultiByte tag = false) (hconstructed : isConstructed tag = true) :
    ∃ set, parseDer (retagged tag n) = .ok set ∧ set.tag = tag ∧ set.children = n.children := by
  obtain ⟨t, hfits, hlevels, rfl⟩ := hn
  cases hfits with
  | leaf _ hplain _ =>
    rw [DerTree.node, DerNode.tag, hplain] at hnode
    cases hnode
  | @branch _ children _ _ hlen hchildren =>
    refine ⟨(DerTree.branch tag children).node, ?_, rfl, rfl⟩
    exact parseDer_iff.mpr ⟨.branch tag children, .branch htag hconstructed hlen hchildren, hlevels,
      rfl, rfl⟩

end CoolSdk
