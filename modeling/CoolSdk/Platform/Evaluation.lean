import CoolSdk.Core.Fallible
import CoolSdk.Platform.Policy

/-!
# When a policy can be evaluated

The validator finds everything in a policy that evaluating it could trip over. What is left
to fail is the encoding of the policy and of the facts, and the time.
-/

namespace CoolSdk

/-- The facts an evaluation digests: those that are defined, ordered by name. -/
def sortedFacts (H : Host) (facts : Facts) : Facts :=
  H.sort (fun a b => H.localeCompare a.1 b.1) (facts.filter fun f => !f.2.isUndefined)

variable {H : Host}

/-- An operator whose pattern compiles, where it has one, does not throw. -/
theorem applyOp_ok {op : String} {value : Option JsValue}
    (hregex : ¬(op = "matches" ∧ invalidRegex H value = true)) (fact : JsValue) :
    ∃ v, applyOp H op fact (value.getD .undefined) = .ok v := by
  by_cases hop : op = "matches"
  · subst hop
    simp only [true_and, Bool.not_eq_true] at hregex
    simp only [applyOp]
    split
    · rename_i s pattern hvalue
      unfold invalidRegex at hregex
      rw [hvalue] at hregex
      cases hr : H.regExp pattern with
      | error err => simp [hr, ok_bind] at hregex
      | ok test => exact ⟨_, rfl⟩
    · exact ⟨_, rfl⟩
  · simp only [applyOp]
    split <;> first | exact ⟨_, rfl⟩ | exact absurd rfl hop

mutual

/-- A condition without problems does not throw. -/
theorem evaluateCondition_ok {c : Condition} {path : String}
    (h : conditionProblems H c path = []) (facts : Facts) (unknowns : List String) :
    ∃ r, evaluateCondition H c facts unknowns = .ok r := by
  match c with
  | .all cs => exact evaluateAll_ok h facts unknowns false
  | .any cs => exact evaluateAny_ok h facts unknowns false
  | .not c =>
    have hinner : conditionProblems H c (path ++ ".not") = [] := h
    obtain ⟨r, hr⟩ := evaluateCondition_ok hinner facts unknowns
    rw [evaluateCondition, hr]
    exact ⟨_, rfl⟩
  | .fact name op value =>
    have hregex : ¬(op = "matches" ∧ invalidRegex H value = true) := by
      intro hbad
      rw [conditionProblems, if_pos hbad] at h
      split at h <;> cases h
    obtain ⟨v, hv⟩ := applyOp_ok hregex (lookupFact facts name)
    rw [evaluateCondition]
    by_cases hexists : op = "exists"
    · rw [if_pos hexists]
      exact ⟨_, rfl⟩
    · rw [if_neg hexists, hv]
      split <;> exact ⟨_, rfl⟩
  | .null => cases h

theorem evaluateAll_ok {cs : List Condition} {path : String} {i : Nat}
    (h : conditionProblemsList H cs path i = []) (facts : Facts) (unknowns : List String)
    (sawUnknown : Bool) : ∃ r, evaluateAll H cs facts unknowns sawUnknown = .ok r := by
  match cs with
  | [] => exact ⟨_, rfl⟩
  | c :: cs =>
    rw [conditionProblemsList, List.append_eq_nil_iff] at h
    obtain ⟨r, hr⟩ := evaluateCondition_ok h.1 facts unknowns
    rw [evaluateAll, hr, ok_bind]
    obtain ⟨v, unknowns'⟩ := r
    have hrest := evaluateAll_ok h.2 facts unknowns'
    cases v with
    | known b =>
      cases b with
      | false => exact ⟨_, rfl⟩
      | true => exact hrest sawUnknown
    | unknown => exact hrest true
    | undefined => exact hrest sawUnknown

theorem evaluateAny_ok {cs : List Condition} {path : String} {i : Nat}
    (h : conditionProblemsList H cs path i = []) (facts : Facts) (unknowns : List String)
    (sawUnknown : Bool) : ∃ r, evaluateAny H cs facts unknowns sawUnknown = .ok r := by
  match cs with
  | [] => exact ⟨_, rfl⟩
  | c :: cs =>
    rw [conditionProblemsList, List.append_eq_nil_iff] at h
    obtain ⟨r, hr⟩ := evaluateCondition_ok h.1 facts unknowns
    rw [evaluateAny, hr, ok_bind]
    obtain ⟨v, unknowns'⟩ := r
    have hrest := evaluateAny_ok h.2 facts unknowns'
    cases v with
    | known b =>
      cases b with
      | false => exact hrest sawUnknown
      | true => exact ⟨_, rfl⟩
    | unknown => exact hrest true
    | undefined => exact hrest sawUnknown

end

/-- The rules of a valid policy have conditions without problems. -/
private theorem conditions_of_rulesProblems {rules : List PolicyRule} {i : Nat}
    {ids : List String} (h : rulesProblems H i ids rules = []) :
    ∀ rule ∈ rules, ∃ path, conditionProblems H rule.when_ path = [] := by
  induction rules generalizing i ids with
  | nil => exact fun rule hrule => absurd hrule List.not_mem_nil
  | cons rule rules ih =>
    rw [rulesProblems, List.append_eq_nil_iff] at h
    intro r hr
    rcases List.mem_cons.mp hr with rfl | hr
    · have hproblems := h.1
      simp only [ruleProblems, List.append_eq_nil_iff] at hproblems
      exact ⟨_, hproblems.2⟩
    · exact ih h.2 r hr

/-- Rules whose conditions have no problems can be matched. -/
private theorem matchRules_ok (p : PolicyDocument) (facts : Facts) {rules : List PolicyRule}
    (h : ∀ rule ∈ rules, ∃ path, conditionProblems H rule.when_ path = []) :
    ∃ ms, matchRules H p facts rules = .ok ms := by
  induction rules with
  | nil => exact ⟨[], rfl⟩
  | cons rule rules ih =>
    obtain ⟨path, hpath⟩ := h rule List.mem_cons_self
    obtain ⟨⟨v, unknowns⟩, hv⟩ := evaluateCondition_ok hpath facts []
    obtain ⟨ms, hms⟩ := ih fun r hr => h r (List.mem_cons_of_mem rule hr)
    have hrule : ∃ m, matchRule H p facts rule = .ok m := by
      rw [matchRule, hv, ok_bind]
      cases v with
      | known b => cases b <;> exact ⟨_, rfl⟩
      | unknown => exact ⟨_, rfl⟩
      | undefined => exact ⟨_, rfl⟩
    obtain ⟨m, hm⟩ := hrule
    exact ⟨m.toList ++ ms, by rw [matchRules, hm, ok_bind, hms, ok_bind]⟩

/-- A policy can be evaluated exactly when it is valid and everything that goes into the record
of the evaluation can be written. -/
theorem evaluatePolicy_ok_iff {p : PolicyDocument} {facts : Facts} {now : JsNumber}
    {inputRefs : List String} :
    (∃ r, evaluatePolicy H p facts now inputRefs = .ok r) ↔
      validatePolicy H p = [] ∧ (∃ digest, policyDigest H p = .ok digest) ∧
        (∃ bytes, H.canonicalCbor (.object (sortedFacts H facts)) = .ok bytes) ∧
        ∃ text, toISOString now = .ok text := by
  unfold evaluatePolicy
  constructor
  · rintro ⟨r, hr⟩
    split at hr
    · rename_i hvalid
      obtain ⟨matched, _, hr⟩ := bind_eq_ok.mp hr
      obtain ⟨digest, hdigest, hr⟩ := bind_eq_ok.mp hr
      obtain ⟨bytes, hbytes, hr⟩ := bind_eq_ok.mp hr
      obtain ⟨text, htext, _⟩ := bind_eq_ok.mp hr
      exact ⟨hvalid, ⟨digest, hdigest⟩, ⟨bytes, hbytes⟩, text, htext⟩
    · cases hr
  · rintro ⟨hvalid, ⟨digest, hdigest⟩, ⟨bytes, hbytes⟩, text, htext⟩
    have hrules := hvalid
    simp only [validatePolicy, List.append_eq_nil_iff] at hrules
    obtain ⟨matched, hmatched⟩ := matchRules_ok p facts (conditions_of_rulesProblems hrules.2)
    rw [sortedFacts] at hbytes
    rw [dif_pos hvalid, hmatched, ok_bind]
    simp only [hdigest, ok_bind, hbytes, htext]
    exact ⟨_, rfl⟩

end CoolSdk
