import CoolSdk.Authz.DelegationAuthority
import CoolSdk.Core.Wildcard
import CoolSdk.Platform.Policy

/-!
# Resource patterns

A scope lists resources as exact ids or as prefixes that end in an asterisk. The containment test
of a delegation says exactly that the parent pattern covers whatever the child pattern covers, on
texts and on the code units the runtime compares, which need not be those of a text.
-/

namespace CoolSdk

open Wildcard

/-- A string as the runtime holds it; a surrogate may stand alone. -/
abbrev CodeUnits := List UInt16

/-- The code units of a character. -/
def charUnits (c : Char) : CodeUnits :=
  let n := c.toNat
  (if n < 65536 then [n] else [55296 + (n - 65536) / 1024, 56320 + (n - 65536) % 1024]).map
    UInt16.ofNat

/-- The code units of a text. -/
def codeUnits (s : String) : CodeUnits := (utf16 s).map UInt16.ofNat

namespace CodeUnits

/-- The code unit of `*`. -/
def star : UInt16 := 0x2a

/-- `pattern.endsWith("*")`. -/
def endsWithStar (pattern : CodeUnits) : Bool := pattern.getLast? == some star

/-- `covers` on code units. -/
def covers (pattern value : CodeUnits) : Bool :=
  if endsWithStar pattern then pattern.dropLast.isPrefixOf value else decide (pattern = value)

/-- `within` on code units. -/
def within (r p : CodeUnits) : Bool :=
  if !endsWithStar p then !endsWithStar r && decide (r = p)
  else p.dropLast.isPrefixOf (if endsWithStar r then r.dropLast else r)

theorem covers_eq (pattern value : CodeUnits) :
    covers pattern value = Wildcard.covers star pattern value := by
  simp only [covers, Wildcard.covers, endsWithStar, beq_iff_eq]

theorem within_eq (r p : CodeUnits) : within r p = Wildcard.within star r p := by
  by_cases hp : p.getLast? = some star
  · simp [within, Wildcard.within, endsWithStar, hp]
  · by_cases hr : r.getLast? = some star
    · simp [within, Wildcard.within, endsWithStar, hp, hr]
    · simp [within, Wildcard.within, endsWithStar, hp, hr]

end CodeUnits

/-! ## Texts -/

theorem covers_eq (pattern value : String) :
    covers pattern value = Wildcard.covers '*' pattern.toList value.toList := by
  simp only [covers, Wildcard.covers, endsWithStar, startsWithStem, beq_iff_eq, String.toList_inj]

theorem within_eq (r p : String) : within r p = Wildcard.within '*' r.toList p.toList := by
  by_cases hp : p.toList.getLast? = some '*'
  · simp [within, Wildcard.within, endsWithStar, hp]
  · by_cases hr : r.toList.getLast? = some '*'
    · simp [within, Wildcard.within, endsWithStar, hp, hr]
    · simp [within, Wildcard.within, endsWithStar, hp, hr, String.toList_inj]

theorem codeUnits_eq (s : String) : codeUnits s = s.toList.flatMap charUnits := by
  rw [codeUnits, utf16, List.map_flatMap]
  rfl

private theorem ofNat_inj {n m : Nat} (hn : n < 65536) (hm : m < 65536)
    (h : UInt16.ofNat n = UInt16.ofNat m) : n = m := by
  have hnat := congrArg UInt16.toNat h
  rwa [UInt16.toNat_ofNat', UInt16.toNat_ofNat', Nat.mod_eq_of_lt hn, Nat.mod_eq_of_lt hm] at hnat

/-- A character is one unit that is no surrogate, or a high surrogate and a low one. -/
theorem charUnits_cases (c : Char) :
    (charUnits c = [UInt16.ofNat c.toNat] ∧ c.toNat < 65536 ∧
      (c.toNat < 55296 ∨ 57343 < c.toNat)) ∨
    ∃ high low, charUnits c = [UInt16.ofNat (55296 + high), UInt16.ofNat (56320 + low)] ∧
      high < 1024 ∧ low < 1024 ∧ c.toNat = 65536 + high * 1024 + low := by
  have hvalid : c.toNat < 55296 ∨ 57343 < c.toNat ∧ c.toNat < 1114112 := c.valid
  by_cases hsmall : c.toNat < 65536
  · left
    refine ⟨?_, hsmall, hvalid.imp id And.left⟩
    simp only [charUnits, if_pos hsmall]
    rfl
  · right
    refine ⟨(c.toNat - 65536) / 1024, (c.toNat - 65536) % 1024, ?_, by omega, by omega, by omega⟩
    simp only [charUnits, if_neg hsmall]
    rfl

/-- UTF-16 is such a code, with `*` for the mark. -/
theorem markedCode_charUnits : MarkedCode charUnits '*' CodeUnits.star where
  free c d h := by
    apply Char.toNat_inj.mp
    rcases charUnits_cases c with ⟨hc, hcsmall, hcvalid⟩ | ⟨high, low, hc, hhigh, hlow, hcsum⟩
    · rcases charUnits_cases d with ⟨hd, hdsmall, _⟩ | ⟨high', low', hd, hhigh', hlow', hdsum⟩
      · rw [hc, hd, List.cons_prefix_cons] at h
        exact ofNat_inj hcsmall hdsmall h.1
      · rw [hc, hd, List.cons_prefix_cons] at h
        have hunit := ofNat_inj hcsmall (by omega) h.1
        omega
    · rcases charUnits_cases d with ⟨hd, hdsmall, _⟩ | ⟨high', low', hd, hhigh', hlow', hdsum⟩
      · rw [hc, hd] at h
        have hlen := h.length_le
        simp at hlen
      · rw [hc, hd, List.cons_prefix_cons, List.cons_prefix_cons] at h
        have hfirst := ofNat_inj (by omega) (by omega) h.1
        have hsecond := ofNat_inj (by omega) (by omega) h.2.1
        omega
  ne_nil c := by
    rcases charUnits_cases c with ⟨hc, _⟩ | ⟨high, low, hc, _⟩
    · rw [hc]
      exact List.cons_ne_nil _ _
    · rw [hc]
      exact List.cons_ne_nil _ _
  mark_eq := rfl
  last c h := by
    rcases charUnits_cases c with ⟨hc, hsmall, _⟩ | ⟨high, low, hc, hhigh, hlow, _⟩
    · rw [hc, List.getLast?_singleton, Option.some.injEq] at h
      exact Char.toNat_inj.mp (ofNat_inj hsmall (by decide) h)
    · rw [hc, List.getLast?_cons_cons, List.getLast?_singleton, Option.some.injEq] at h
      have hunit : 56320 + low = 42 := ofNat_inj (by omega) (by decide) h
      omega

/-- On texts the runtime's comparison of code units covers the same. -/
theorem covers_codeUnits (pattern value : String) :
    CodeUnits.covers (codeUnits pattern) (codeUnits value) = covers pattern value := by
  rw [CodeUnits.covers_eq, codeUnits_eq, codeUnits_eq, markedCode_charUnits.covers_eq, covers_eq]

theorem within_codeUnits (r p : String) :
    CodeUnits.within (codeUnits r) (codeUnits p) = within r p := by
  rw [CodeUnits.within_eq, codeUnits_eq, codeUnits_eq, markedCode_charUnits.within_eq, within_eq]

/-- Containment of resource patterns is inclusion of what they cover, for all strings of the
runtime and for all texts. -/
theorem within_exact :
    (∀ r p : CodeUnits, r.within p = true ↔
      ∀ v : CodeUnits, r.covers v = true → p.covers v = true) ∧
      ∀ r p : String, within r p = true ↔
        ∀ v : String, covers r v = true → covers p v = true := by
  constructor
  · intro r p
    simp only [CodeUnits.within_eq, CodeUnits.covers_eq]
    exact within_iff_covers r p
  · intro r p
    simp only [within_eq, covers_eq]
    rw [within_iff_covers]
    constructor
    · intro h v
      exact h v.toList
    · intro h v hv
      have hcovers := h (String.ofList v)
      rw [String.toList_ofList] at hcovers
      exact hcovers hv

end CoolSdk
