import Mathlib.Data.List.Infix

/-!
# Message frames

A signed message is laid out from the encoding of a value and a digest of fixed length: the
encoding alone, the encoding and the digest, a label and the digest, or the digest alone. No
two layouts share a message when encodings start with a symbol no label starts with, the bare
ones are longer than a digest, and no encoding extends another.
-/

namespace CoolSdk

variable {β : Type*}

/-- How an encoding and a digest are laid out in a message. -/
inductive Frame (β : Type*)
  /-- The encoding. -/
  | bare
  /-- The encoding, then the digest. -/
  | suffixed
  /-- A label, then the digest. -/
  | labelled (label : List β)
  /-- The digest. -/
  | digest

namespace Frame

/-- The message of an encoding and a digest. -/
def layout : Frame β → List β → List β → List β
  | bare, e, _ => e
  | suffixed, e, d => e ++ d
  | labelled label, _, d => label ++ d
  | digest, _, d => d

/-- A list starts with a symbol of the given kind. -/
def StartsWith (tag : β → Prop) (l : List β) : Prop := ∃ c rest, l = c :: rest ∧ tag c

/-- What a frame relies on: shown encodings are tagged, labels are not, and a bare encoding is
longer than a digest. -/
def Fits (tag : β → Prop) (n : Nat) (e : List β) : Frame β → Prop
  | bare => StartsWith tag e ∧ n < e.length
  | suffixed => StartsWith tag e
  | labelled label => StartsWith (fun c => ¬tag c) label
  | digest => True

/-- Two messages of one frame carry the same parts. -/
def Agrees (e e' d d' : List β) : Frame β → Prop
  | bare => e = e'
  | suffixed => e = e' ∧ d = d'
  | labelled _ | digest => d = d'

variable {tag : β → Prop} {n : Nat} {e e' d d' label : List β}

theorem StartsWith.append (h : StartsWith tag e) (r : List β) : StartsWith tag (e ++ r) := by
  obtain ⟨c, rest, rfl, hc⟩ := h
  exact ⟨c, rest ++ r, rfl, hc⟩

theorem StartsWith.ne (h : StartsWith tag e) (h' : StartsWith (fun c => ¬tag c) e') : e ≠ e' := by
  rintro rfl
  obtain ⟨c, rest, rfl, hc⟩ := h
  obtain ⟨c', rest', he, hc'⟩ := h'
  cases he
  exact hc' hc

theorem StartsWith.ne_nil (h : StartsWith tag e) : e ≠ [] := by
  obtain ⟨c, rest, rfl, _⟩ := h
  exact List.cons_ne_nil c rest

private theorem append_length_ne (hd : d.length = n) (hd' : d'.length = n) (he : e ≠ []) :
    e ++ d ≠ d' := by
  intro h
  have hl := congrArg List.length h
  have hpos := List.length_pos_iff.mpr he
  rw [List.length_append] at hl
  omega

private theorem bare_ne_suffixed (hn : 0 < n) (hd : d.length = n) (hext : e' <+: e → e' = e) :
    e ≠ e' ++ d := by
  intro h
  have heq := hext ⟨d, h.symm⟩
  rw [heq, List.self_eq_append_right] at h
  rw [h, List.length_nil] at hd
  omega

/-- A message determines its frame and the parts it carries. -/
theorem eq_of_layout_eq {f f' : Frame β} (hn : 0 < n) (hd : d.length = n) (hd' : d'.length = n)
    (hf : f.Fits tag n e) (hf' : f'.Fits tag n e') (hext : e <+: e' → e = e')
    (hext' : e' <+: e → e' = e) (h : f.layout e d = f'.layout e' d') :
    f = f' ∧ f.Agrees e e' d d' := by
  cases f with
  | bare =>
    obtain ⟨htag, hlong⟩ := hf
    cases f' with
    | bare => exact ⟨rfl, h⟩
    | suffixed => exact (bare_ne_suffixed hn hd' hext' h).elim
    | labelled label => exact (htag.ne (hf'.append d') h).elim
    | digest =>
      have hl := congrArg List.length h
      simp only [layout] at hl
      omega
  | suffixed =>
    cases f' with
    | bare => exact (bare_ne_suffixed hn hd hext h.symm).elim
    | suffixed =>
      obtain ⟨he, hdd⟩ := List.append_inj' h (hd.trans hd'.symm)
      exact ⟨rfl, he, hdd⟩
    | labelled label => exact ((StartsWith.append hf d).ne (hf'.append d') h).elim
    | digest => exact (append_length_ne hd hd' (StartsWith.ne_nil hf) h).elim
  | labelled label =>
    cases f' with
    | bare => exact (hf'.1.ne (hf.append d) h.symm).elim
    | suffixed => exact ((StartsWith.append hf' d').ne (hf.append d) h.symm).elim
    | labelled label' =>
      obtain ⟨hl, hdd⟩ := List.append_inj' h (hd.trans hd'.symm)
      exact ⟨congrArg labelled hl, hdd⟩
    | digest => exact (append_length_ne hd hd' (StartsWith.ne_nil hf) h).elim
  | digest =>
    cases f' with
    | bare =>
      have hl := congrArg List.length h
      have hlong := hf'.2
      simp only [layout] at hl
      omega
    | suffixed => exact (append_length_ne hd' hd (StartsWith.ne_nil hf') h.symm).elim
    | labelled label' => exact (append_length_ne hd' hd (StartsWith.ne_nil hf') h.symm).elim
    | digest => exact ⟨rfl, h⟩

end Frame

end CoolSdk
