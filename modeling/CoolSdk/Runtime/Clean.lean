import CoolSdk.Runtime.Value

/-!
# Cleaned values

What is left of a value by `clean`: the members that are not undefined, in the order their names
first came, each cleaned. Cleaning a second time changes nothing.
-/

namespace CoolSdk.JsValue

/-- The member a cleaned object has under a name. -/
def kept (ms : Members) (name : String) : Option JsValue :=
  if name = "__proto__" then none
  else ((Entries.get ms name).filter fun v => !v.isUndefined).map clean

private theorem get_cleanMembers_into (ms : Members) (h : (ms.map Prod.fst).Nodup) (out : Members)
    (name : String) :
    Entries.get (cleanMembers ms out) name = (kept ms name).or (Entries.get out name) := by
  induction ms generalizing out with
  | nil =>
    rw [cleanMembers, kept]
    split <;> rfl
  | cons m ms ih =>
    obtain ⟨k, v⟩ := m
    rw [List.map_cons, List.nodup_cons] at h
    have hrest : k = name → kept ms name = none := by
      rintro rfl
      rw [kept]
      split
      · rfl
      · rw [Option.map_eq_none_iff, Option.filter_eq_none_iff]
        intro w hw
        exact absurd (List.mem_map_of_mem (Entries.mem_of_get hw)) h.1
    rw [cleanMembers, ih h.2]
    by_cases hk : k = name
    · rw [hrest hk, Option.none_or, kept, Entries.get, if_pos hk]
      subst hk
      by_cases hv : v.isUndefined = true
      · simp [hv, Option.filter_some]
      · by_cases hproto : k = "__proto__"
        · simp [hv, hproto, assign]
        · simp [hv, hproto, assign, Entries.get_set_self, Option.filter_some]
    · have hout : Entries.get (if v.isUndefined then out else assign out k v.clean) name =
          Entries.get out name := by
        split
        · rfl
        · rw [assign]
          split
          · rfl
          · rw [Entries.get_set_ne _ _ hk]
      rw [hout, kept, kept, Entries.get, if_neg hk]

/-- A cleaned object has the members kept from the one it was made from. -/
theorem get_cleanMembers {ms : Members} (h : (ms.map Prod.fst).Nodup) (name : String) :
    Entries.get (cleanMembers ms []) name = kept ms name := by
  rw [get_cleanMembers_into ms h, Entries.get, Option.or_none]

private theorem mem_assign {out : Members} {k : String} {v : JsValue} {e : String × JsValue}
    (h : e ∈ assign out k v) : e.1 = k ∨ e ∈ out := by
  unfold assign at h
  split at h
  · exact .inr h
  · rcases Entries.mem_set h with rfl | h
    · exact .inl rfl
    · exact .inr h

private theorem exists_of_mem_cleanMembers_into {ms out : Members} {e : String × JsValue}
    (h : e ∈ cleanMembers ms out) : e ∈ out ∨ ∃ m ∈ ms, m.1 = e.1 := by
  induction ms generalizing out with
  | nil => exact .inl h
  | cons m ms ih =>
    obtain ⟨k, v⟩ := m
    rcases ih h with h | ⟨m, hm, hname⟩
    · split at h
      · exact .inl h
      · rcases mem_assign h with hk | h
        · exact .inr ⟨(k, v), by simp, hk.symm⟩
        · exact .inl h
    · exact .inr ⟨m, List.mem_cons_of_mem _ hm, hname⟩

/-- A cleaned object has no name that the one it was made from lacks. -/
theorem exists_of_mem_cleanMembers {ms : Members} {e : String × JsValue}
    (h : e ∈ cleanMembers ms []) : ∃ m ∈ ms, m.1 = e.1 :=
  (exists_of_mem_cleanMembers_into h).resolve_left List.not_mem_nil

/-- What cleaning leaves of an object, and leaves alone: distinct names, none of them that of the
prototype, and cleaned values. -/
structure Settled (ms : Members) : Prop where
  distinct : (ms.map Prod.fst).Nodup
  values : ∀ e ∈ ms, e.1 ≠ "__proto__" ∧ e.2.isUndefined = false ∧ e.2.clean = e.2

theorem Settled.nil : Settled [] := ⟨List.nodup_nil, nofun⟩

theorem isUndefined_clean (v : JsValue) : v.clean.isUndefined = v.isUndefined := by
  cases v <;> rfl

private theorem Settled.assign {out : Members} (h : Settled out) {k : String} {v : JsValue}
    (hv : v.isUndefined = false) (hclean : v.clean = v) : Settled (JsValue.assign out k v) := by
  unfold JsValue.assign
  by_cases hk : k = "__proto__"
  · rwa [if_pos hk]
  · rw [if_neg hk]
    refine ⟨Entries.nodup_set h.distinct k v, ?_⟩
    intro e he
    rcases Entries.mem_set he with rfl | he
    · exact ⟨hk, hv, hclean⟩
    · exact h.values e he

private theorem cleanMembers_append {ms out : Members} (h : Settled (out ++ ms)) :
    cleanMembers ms out = out ++ ms := by
  induction ms generalizing out with
  | nil => rw [cleanMembers, List.append_nil]
  | cons m ms ih =>
    obtain ⟨k, v⟩ := m
    obtain ⟨hk, hv, hclean⟩ := h.values (k, v) (by simp)
    have hnot : k ∉ out.map Prod.fst := by
      have hdistinct := h.distinct
      rw [List.map_append, List.nodup_append] at hdistinct
      intro hmem
      exact hdistinct.2.2 k hmem k (by simp) rfl
    rw [cleanMembers, if_neg (by simp [hv]), assign, if_neg hk, hclean,
      Entries.set_of_not_mem hnot, ih (by simpa using h), List.append_assoc, List.singleton_append]

/-- Cleaning changes nothing in an object that is already clean. -/
theorem Settled.cleanMembers_eq {ms : Members} (h : Settled ms) : cleanMembers ms [] = ms :=
  cleanMembers_append (show Settled ([] ++ ms) from h)

mutual

theorem clean_clean (v : JsValue) : v.clean.clean = v.clean := by
  match v with
  | array xs => rw [clean, clean, cleanItems_cleanItems]
  | object ms => rw [clean, clean, (settled_cleanMembers_into ms Settled.nil).cleanMembers_eq]
  | custom ms => rw [clean, clean, (settled_cleanMembers_into ms Settled.nil).cleanMembers_eq]
  | undefined | null | bool _ | num _ | str _ | bytes _ | foreign _ => rfl

theorem cleanItems_cleanItems (xs : List JsValue) :
    cleanItems (cleanItems xs) = cleanItems xs := by
  match xs with
  | [] => rfl
  | x :: xs => rw [cleanItems, cleanItems, clean_clean x, cleanItems_cleanItems xs]

theorem settled_cleanMembers_into (ms : Members) {out : Members} (h : Settled out) :
    Settled (cleanMembers ms out) := by
  match ms with
  | [] => exact h
  | (k, v) :: ms =>
    rw [cleanMembers]
    apply settled_cleanMembers_into ms
    split
    · exact h
    · rename_i hv
      refine h.assign ?_ (clean_clean v)
      rw [isUndefined_clean]
      exact Bool.not_eq_true _ ▸ hv

end

/-- Cleaning an object settles it. -/
theorem settled_cleanMembers (ms : Members) : Settled (cleanMembers ms []) :=
  settled_cleanMembers_into ms Settled.nil

end CoolSdk.JsValue
