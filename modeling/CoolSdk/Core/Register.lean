import CoolSdk.Core.Timeline
import Mathlib.Order.Lattice

/-!
# Last-writer-wins registers

A register takes the value its last event wrote. On a timeline in order, that event is among
the latest writes, so two timelines of the same events leave the same value wherever their
latest writes agree, and the order within one moment decides the value otherwise.
-/

namespace CoolSdk

universe u v w

variable {ε : Type u} {ν : Type v}

/-- The value of the last event that writes a register. -/
def lastWrite (write : ε → Option ν) : List ε → Option ν
  | [] => none
  | e :: es => (lastWrite write es).or (write e)

theorem lastWrite_append (write : ε → Option ν) (es fs : List ε) :
    lastWrite write (es ++ fs) = (lastWrite write fs).or (lastWrite write es) := by
  induction es with
  | nil => rw [List.nil_append, lastWrite, Option.or_none]
  | cons e es ih => rw [List.cons_append, lastWrite, ih, lastWrite, Option.or_assoc]

@[simp] theorem lastWrite_concat (write : ε → Option ν) (es : List ε) (e : ε) :
    lastWrite write (es ++ [e]) = (write e).or (lastWrite write es) := by
  rw [lastWrite_append, lastWrite, lastWrite, Option.none_or]

/-- A register nobody writes has no value. -/
theorem lastWrite_eq_none_iff {write : ε → Option ν} {es : List ε} :
    lastWrite write es = none ↔ ∀ e ∈ es, write e = none := by
  induction es with
  | nil => simp [lastWrite]
  | cons e es ih =>
    rw [lastWrite, Option.or_eq_none_iff, ih, List.forall_mem_cons]
    exact and_comm

section

variable {τ : Type w} [LinearOrder τ] {write : ε → Option ν} {time : ε → τ}

/-- On a timeline in order, the value was written by one of the latest writes. -/
theorem exists_latest_of_lastWrite {es : List ε}
    (hsorted : es.Pairwise fun a b => time a ≤ time b) {v : ν} (h : lastWrite write es = some v) :
    ∃ e ∈ es, write e = some v ∧ ∀ f ∈ es, (write f).isSome → time f ≤ time e := by
  induction es with
  | nil => cases h
  | cons a es ih =>
    obtain ⟨hhead, htail⟩ := List.pairwise_cons.mp hsorted
    rw [lastWrite, Option.or_eq_some_iff] at h
    rcases h with h | ⟨hnone, h⟩
    · obtain ⟨e, he, hwrite, hlatest⟩ := ih htail h
      refine ⟨e, List.mem_cons_of_mem a he, hwrite, ?_⟩
      rw [List.forall_mem_cons]
      exact ⟨fun _ => hhead e he, hlatest⟩
    · refine ⟨a, List.mem_cons_self, h, ?_⟩
      rw [List.forall_mem_cons]
      refine ⟨fun _ => le_rfl, fun f hf hsome => ?_⟩
      rw [lastWrite_eq_none_iff.mp hnone f hf] at hsome
      cases hsome

/-- Two timelines of the same events leave the same value where their latest writes agree. -/
theorem lastWrite_eq_of_agree {es fs : List ε} (hes : es.Pairwise fun a b => time a ≤ time b)
    (hfs : fs.Pairwise fun a b => time a ≤ time b) (hmem : ∀ e, e ∈ es ↔ e ∈ fs)
    (hagree : ∀ e ∈ es, ∀ f ∈ es, time e = time f → (write e).isSome → (write f).isSome →
      (∀ g ∈ es, (write g).isSome → time g ≤ time e) → write e = write f) :
    lastWrite write es = lastWrite write fs := by
  cases hv : lastWrite write es with
  | none =>
    rw [eq_comm, lastWrite_eq_none_iff]
    rw [lastWrite_eq_none_iff] at hv
    exact fun f hf => hv f ((hmem f).mpr hf)
  | some v =>
    cases hw : lastWrite write fs with
    | none =>
      obtain ⟨e, he, hwrite, _⟩ := exists_latest_of_lastWrite hes hv
      rw [lastWrite_eq_none_iff.mp hw e ((hmem e).mp he)] at hwrite
      cases hwrite
    | some w =>
      obtain ⟨e, he, hwriteE, hlatestE⟩ := exists_latest_of_lastWrite hes hv
      obtain ⟨f, hf, hwriteF, hlatestF⟩ := exists_latest_of_lastWrite hfs hw
      have hfe : time f ≤ time e := hlatestE f ((hmem f).mpr hf) (by rw [hwriteF]; rfl)
      have hef : time e ≤ time f := hlatestF e ((hmem e).mp he) (by rw [hwriteE]; rfl)
      have hsame := hagree e he f ((hmem f).mpr hf) (le_antisymm hef hfe) (by rw [hwriteE]; rfl)
        (by rw [hwriteF]; rfl) hlatestE
      rw [← hwriteE, hsame, hwriteF]

/-- On a timeline in order, the events of one moment decide a register nobody writes later. -/
theorem lastWrite_eq_filter {es : List ε} (hsorted : es.Pairwise fun a b => time a ≤ time b)
    {t : τ} (hlater : ∀ e ∈ es, t < time e → write e = none)
    (hwritten : ∃ e ∈ es, time e = t ∧ (write e).isSome) :
    lastWrite write es = lastWrite write (es.filter fun e => time e = t) := by
  induction es with
  | nil =>
    obtain ⟨e, he, _⟩ := hwritten
    exact absurd he List.not_mem_nil
  | cons a es ih =>
    obtain ⟨hhead, htail⟩ := List.pairwise_cons.mp hsorted
    rw [List.forall_mem_cons] at hlater
    by_cases hrest : ∃ e ∈ es, time e = t ∧ (write e).isSome
    · have hvalue := ih htail hlater.2 hrest
      obtain ⟨e, he, htime, hsome⟩ := hrest
      have hfilter : (lastWrite write (es.filter fun e => time e = t)).isSome := by
        rw [Option.isSome_iff_ne_none, ne_eq, lastWrite_eq_none_iff]
        intro hnone
        rw [hnone e (List.mem_filter.mpr ⟨he, by simpa using htime⟩)] at hsome
        cases hsome
      obtain ⟨v, hv⟩ := Option.isSome_iff_exists.mp hfilter
      rw [lastWrite, hvalue, hv, Option.some_or]
      by_cases ha : time a = t
      · rw [List.filter_cons_of_pos (by simpa using ha), lastWrite, hv, Option.some_or]
      · rw [List.filter_cons_of_neg (by simpa using ha), hv]
    · obtain ⟨e, he, htime, hsome⟩ := hwritten
      have hae : e = a := by
        rcases List.mem_cons.mp he with he | he
        · exact he
        · exact absurd ⟨e, he, htime, hsome⟩ hrest
      subst hae
      have hnone : lastWrite write es = none := by
        rw [lastWrite_eq_none_iff]
        intro f hf
        rcases lt_or_eq_of_le (hhead f hf) with hlt | heq
        · exact hlater.2 f hf (htime ▸ hlt)
        · by_contra hsome
          exact hrest ⟨f, hf, heq.symm.trans htime, Option.isSome_iff_ne_none.mpr hsome⟩
      have hfilter : lastWrite write (es.filter fun e => time e = t) = none := by
        rw [lastWrite_eq_none_iff] at hnone ⊢
        exact fun f hf => hnone f ((List.mem_filter.mp hf).1)
      rw [List.filter_cons_of_pos (by simpa using htime), lastWrite, lastWrite, hnone, hfilter]

end

end CoolSdk
