import CoolSdk.Phala.Governance
import CoolSdk.Runtime.ReferenceHost

/-!
# Counting approvers

A rule can bound the number of approvers. What is counted are the entries of a list, so an
approver that is listed again counts again. The order of the list, and of the rules, does not
matter, and a rule that is added never makes an outcome milder.
-/

namespace CoolSdk.Governance

/-- Whether a count of approvers is within the bounds of a condition. -/
def PolicyMatch.allows (m : PolicyMatch) (count : Nat) : Bool :=
  !m.minApprovers.any (fun bound => (JsNumber.ofInt count).lt bound) &&
    !m.maxApprovers.any fun bound => bound.lt (JsNumber.ofInt count)

/-- A rule without its bounds on approvers. -/
def PolicyRule.uncounted (rule : PolicyRule) : PolicyRule :=
  { rule with when_ := { rule.when_ with minApprovers := none, maxApprovers := none } }

/-- A rule matches a change for so many approvers. -/
def PolicyRule.MatchesAt (H : Host) (input : PolicyInput) (rule : PolicyRule) (count : Nat) :
    Prop :=
  matches_ H input rule.uncounted = .ok true ∧ rule.when_.allows count = true

/-- What speaks for a decision on a change with so many approvers: a rule that matches, or the
fallback where none does. -/
inductive SpeaksFor (H : Host) (policy : PolicySet) (input : PolicyInput) (count : Nat) :
    Decision → Prop
  | rule {rule : PolicyRule} (hmem : rule ∈ policy.rules) (h : rule.MatchesAt H input count) :
      SpeaksFor H policy input count rule.decision
  | fallback (h : ∀ rule ∈ policy.rules, ¬rule.MatchesAt H input count) :
      SpeaksFor H policy input count (policy.fallback.getD .escalate)

/-- Every decision that only one of two counts speaks for is outranked by one that the other count
speaks for. -/
def Indifferent (H : Host) (policy : PolicySet) (input : PolicyInput) (count count' : Nat) : Prop :=
  ∀ d, (SpeaksFor H policy input count d → ¬SpeaksFor H policy input count' d →
      ∃ d', SpeaksFor H policy input count' d' ∧ d.severity < d'.severity) ∧
    (SpeaksFor H policy input count' d → ¬SpeaksFor H policy input count d →
      ∃ d', SpeaksFor H policy input count d' ∧ d.severity < d'.severity)

variable {H : Host} {policy : PolicySet} {input : PolicyInput} {outcome outcome' : PolicyOutcome}
  {rule : PolicyRule} {rules : List PolicyRule} {approvers : List String}

theorem Decision.severity_injective : Function.Injective Decision.severity := by
  intro a b h
  cases a <;> cases b <;> first | rfl | cases h

/-! ## What a rule reads of the approvers -/

theorem matches_eq (input : PolicyInput) (rule : PolicyRule) :
    matches_ H input rule =
      (matches_ H input rule.uncounted).map (· && rule.when_.allows input.approvers.length) := by
  unfold matches_ PolicyRule.uncounted PolicyMatch.allows
  dsimp only
  split_ifs
  · rfl
  · rfl
  · rfl
  · have hnamed : ∀ (named : Except String Bool) (a b c : Bool),
        (named >>= fun n => pure (n && a && b && c)) =
          (named >>= fun n => pure (n && c)).map (· && (a && b)) := by
      intro named a b c
      cases named with
      | error e => rfl
      | ok n => exact congrArg Except.ok (by ac_rfl)
    simp only [Option.any_none, Bool.not_false, Bool.and_true, Bool.and_assoc] at hnamed ⊢
    exact hnamed _ _ _ _

theorem uncounted_approvers (input : PolicyInput) (rule : PolicyRule) (approvers : List String) :
    matches_ H { input with approvers := approvers } rule.uncounted =
      matches_ H input rule.uncounted := rfl

theorem matchesAt_iff :
    rule.MatchesAt H input input.approvers.length ↔ matches_ H input rule = .ok true := by
  rw [matches_eq, PolicyRule.MatchesAt]
  cases matches_ H input rule.uncounted with
  | error e => simp [Except.map]
  | ok b => cases b <;> simp [Except.map]

/-- Only the number of approvers is read. -/
theorem evaluate_congr_length (h : approvers.length = input.approvers.length) :
    evaluate H policy { input with approvers := approvers } = evaluate H policy input := by
  have hrule : ∀ rule, matches_ H { input with approvers := approvers } rule =
      matches_ H input rule := by
    intro rule
    rw [matches_eq, matches_eq input, uncounted_approvers, h]
  have hrules : ∀ rules, matching H { input with approvers := approvers } rules =
      matching H input rules := by
    intro rules
    induction rules with
    | nil => rfl
    | cons rule rules ih => rw [matching, matching, hrule, ih]
  rw [evaluate, evaluate, hrules]

/-- Whether the rules can be matched does not depend on the approvers. -/
theorem exists_matching_iff :
    (∃ matched, matching H { input with approvers := approvers } rules = .ok matched) ↔
      ∃ matched, matching H input rules = .ok matched := by
  have hrule : ∀ rule, (∃ keep, matches_ H { input with approvers := approvers } rule = .ok keep) ↔
      ∃ keep, matches_ H input rule = .ok keep := by
    intro rule
    rw [matches_eq, matches_eq input, uncounted_approvers]
    cases matches_ H input rule.uncounted with
    | error e => exact ⟨nofun, nofun⟩
    | ok b => exact ⟨fun _ => ⟨_, rfl⟩, fun _ => ⟨_, rfl⟩⟩
  induction rules with
  | nil => exact ⟨fun _ => ⟨_, rfl⟩, fun _ => ⟨_, rfl⟩⟩
  | cons rule rules ih =>
    have hcons : ∀ input : PolicyInput, (∃ matched, matching H input (rule :: rules) = .ok matched) ↔
        (∃ keep, matches_ H input rule = .ok keep) ∧
          ∃ matched, matching H input rules = .ok matched := by
      intro input
      constructor
      · rintro ⟨matched, h⟩
        simp only [matching, bind_eq_ok] at h
        obtain ⟨keep, hkeep, rest, hrest, -⟩ := h
        exact ⟨⟨keep, hkeep⟩, rest, hrest⟩
      · rintro ⟨⟨keep, hkeep⟩, rest, hrest⟩
        exact ⟨_, by rw [matching, hkeep, ok_bind, hrest, ok_bind]; rfl⟩
    rw [hcons, hcons]
    exact and_congr (hrule rule) ih

/-- Whether there is an outcome does not depend on the approvers. -/
theorem exists_evaluate_iff :
    (∃ outcome, evaluate H policy { input with approvers := approvers } = .ok outcome) ↔
      ∃ outcome, evaluate H policy input = .ok outcome := by
  have hrun : ∀ input : PolicyInput, (∃ outcome, evaluate H policy input = .ok outcome) ↔
      (∃ matched, matching H input policy.rules = .ok matched) ∧
        ∃ hash, policyHash H policy = .ok hash := by
    intro input
    constructor
    · rintro ⟨outcome, h⟩
      simp only [evaluate, bind_eq_ok] at h
      obtain ⟨matched, hmatched, hash, hhash, -⟩ := h
      exact ⟨⟨matched, hmatched⟩, hash, hhash⟩
    · rintro ⟨⟨matched, hmatched⟩, hash, hhash⟩
      rw [evaluate, hmatched, ok_bind, hhash, ok_bind]
      cases matched with
      | nil => exact ⟨_, rfl⟩
      | cons first rest => exact ⟨_, rfl⟩
  rw [hrun, hrun, exists_matching_iff]

/-! ## The strictest decision that is spoken for -/

theorem foldl_stricter_mem (rest : List PolicyRule) (first : PolicyRule) :
    rest.foldl stricter first ∈ first :: rest := by
  induction rest generalizing first with
  | nil => exact List.mem_singleton_self first
  | cons next rest ih =>
    rcases List.mem_cons.mp (ih (stricter first next)) with h | h
    · rw [List.foldl_cons, h, stricter]
      split_ifs
      · exact List.mem_cons_of_mem _ List.mem_cons_self
      · exact List.mem_cons_self
    · exact List.mem_cons_of_mem _ (List.mem_cons_of_mem _ h)

/-- The outcome is the strictest decision that is spoken for. -/
theorem evaluate_speaksFor (h : evaluate H policy input = .ok outcome) :
    SpeaksFor H policy input input.approvers.length outcome.decision ∧
      ∀ d, SpeaksFor H policy input input.approvers.length d →
        d.severity ≤ outcome.decision.severity := by
  have hrun := h
  simp only [evaluate, bind_eq_ok] at hrun
  obtain ⟨matched, hmatched, hash, -, hrun⟩ := hrun
  have hmem : ∀ rule, rule ∈ matched ↔
      rule ∈ policy.rules ∧ rule.MatchesAt H input input.approvers.length := by
    intro rule
    rw [mem_matching hmatched, matchesAt_iff]
  cases matched with
  | nil =>
    have hnone : ∀ rule ∈ policy.rules, ¬rule.MatchesAt H input input.approvers.length :=
      fun rule hrule hmatch => List.not_mem_nil ((hmem rule).mpr ⟨hrule, hmatch⟩)
    cases hrun
    refine ⟨.fallback hnone, ?_⟩
    rintro d (⟨hrule, hmatch⟩ | -)
    · exact absurd hmatch (hnone _ hrule)
    · exact le_rfl
  | cons first rest =>
    cases hrun
    constructor
    · obtain ⟨hrule, hmatch⟩ := (hmem _).mp (foldl_stricter_mem rest first)
      exact .rule hrule hmatch
    · rintro d (⟨hrule, hmatch⟩ | hnone)
      · exact le_foldl_stricter rest first _ ((hmem _).mpr ⟨hrule, hmatch⟩)
      · obtain ⟨hrule, hmatch⟩ := (hmem first).mp List.mem_cons_self
        exact absurd hmatch (hnone first hrule)

theorem speaksFor_approvers {count : Nat} {d : Decision} :
    SpeaksFor H policy { input with approvers := approvers } count d ↔
      SpeaksFor H policy input count d := by
  constructor
  · rintro (⟨hrule, hmatch⟩ | hnone)
    · exact .rule hrule hmatch
    · exact .fallback hnone
  · rintro (⟨hrule, hmatch⟩ | hnone)
    · exact .rule hrule hmatch
    · exact .fallback hnone

/-- Two counts decide alike exactly where no decision that only one of them speaks for stands out. -/
theorem decision_eq_iff (h : evaluate H policy input = .ok outcome)
    (h' : evaluate H policy { input with approvers := approvers } = .ok outcome') :
    outcome'.decision = outcome.decision ↔
      Indifferent H policy input input.approvers.length approvers.length := by
  obtain ⟨hspoken, hmost⟩ := evaluate_speaksFor h
  obtain ⟨hspoken', hmost'⟩ := evaluate_speaksFor h'
  rw [speaksFor_approvers] at hspoken'
  have hmost'' : ∀ d, SpeaksFor H policy input approvers.length d →
      d.severity ≤ outcome'.decision.severity := fun d hd => hmost' d (speaksFor_approvers.mpr hd)
  constructor
  · intro heq d
    rw [heq] at hspoken' hmost''
    have hlt : ∀ {d : Decision}, d.severity ≤ outcome.decision.severity → d ≠ outcome.decision →
        d.severity < outcome.decision.severity :=
      fun hle hne => lt_of_le_of_ne hle fun hsev => hne (Decision.severity_injective hsev)
    constructor
    · intro hd hnot
      exact ⟨_, hspoken', hlt (hmost d hd) fun he => hnot (he ▸ hspoken')⟩
    · intro hd hnot
      exact ⟨_, hspoken, hlt (hmost'' d hd) fun he => hnot (he ▸ hspoken)⟩
  · intro hindifferent
    apply Decision.severity_injective
    apply le_antisymm
    · by_cases hboth : SpeaksFor H policy input input.approvers.length outcome'.decision
      · exact hmost _ hboth
      · obtain ⟨d, hd, hlt⟩ := (hindifferent _).2 hspoken' hboth
        exact hlt.le.trans (hmost d hd)
    · by_cases hboth : SpeaksFor H policy input approvers.length outcome.decision
      · exact hmost'' _ hboth
      · obtain ⟨d, hd, hlt⟩ := (hindifferent _).1 hspoken hboth
        exact hlt.le.trans (hmost'' d hd)

/-- More rules are at least as strict, once a rule has matched. -/
theorem decision_mono (hrules : ∀ rule ∈ policy.rules, rule ∈ rules)
    (hmatch : ∃ rule ∈ policy.rules, matches_ H input rule = .ok true)
    (h : evaluate H policy input = .ok outcome)
    (h' : evaluate H { policy with rules := rules } input = .ok outcome') :
    outcome.decision.severity ≤ outcome'.decision.severity := by
  obtain ⟨-, hmost'⟩ := evaluate_speaksFor h'
  obtain ⟨hspoken, -⟩ := evaluate_speaksFor h
  generalize outcome.decision = d at hspoken ⊢
  cases hspoken with
  | rule hmem hat => exact hmost' _ (.rule (hrules _ hmem) hat)
  | fallback hnone =>
    obtain ⟨rule, hrule, hmatch⟩ := hmatch
    exact absurd (matchesAt_iff.mpr hmatch) (hnone rule hrule)

/-- The order of the rules does not change a decision. -/
theorem decision_perm (hperm : rules.Perm policy.rules) (h : evaluate H policy input = .ok outcome)
    (h' : evaluate H { policy with rules := rules } input = .ok outcome') :
    outcome'.decision = outcome.decision := by
  have hspeaks : ∀ count d, SpeaksFor H { policy with rules := rules } input count d ↔
      SpeaksFor H policy input count d := by
    intro count d
    constructor
    · rintro (⟨hrule, hmatch⟩ | hnone)
      · exact .rule (hperm.mem_iff.mp hrule) hmatch
      · exact .fallback fun rule hrule => hnone rule (hperm.mem_iff.mpr hrule)
    · rintro (⟨hrule, hmatch⟩ | hnone)
      · exact .rule (hperm.mem_iff.mpr hrule) hmatch
      · exact .fallback fun rule hrule => hnone rule (hperm.mem_iff.mp hrule)
  obtain ⟨hspoken, hmost⟩ := evaluate_speaksFor h
  obtain ⟨hspoken', hmost'⟩ := evaluate_speaksFor h'
  apply Decision.severity_injective
  exact le_antisymm (hmost _ ((hspeaks _ _).mp hspoken')) (hmost' _ ((hspeaks _ _).mpr hspoken))

/-- Approvers are counted as listed, and the strictest rule wins, exactly: listing an approver
again keeps the decision where the one more that is counted brings in or takes out no decision
that stands out. The order of rules and approvers never matters, and a rule that is added never
makes the outcome of a rule milder. -/
theorem approvers_and_strictness_iff (H : Host) (policy : PolicySet) (input : PolicyInput) :
    (∀ a ∈ input.approvers, ∀ outcome, evaluate H policy input = .ok outcome →
      ((∃ outcome', evaluate H policy { input with approvers := a :: input.approvers } =
          .ok outcome' ∧ outcome'.decision = outcome.decision) ↔
        Indifferent H policy input input.approvers.length (input.approvers.length + 1))) ∧
    (∀ approvers, approvers.Perm input.approvers →
      evaluate H policy { input with approvers := approvers } = evaluate H policy input) ∧
    (∀ rules outcome outcome', rules.Perm policy.rules → evaluate H policy input = .ok outcome →
      evaluate H { policy with rules := rules } input = .ok outcome' →
      outcome'.decision = outcome.decision) ∧
    ∀ front rule back outcome outcome', policy.rules = front ++ back →
      (∃ rule ∈ policy.rules, matches_ H input rule = .ok true) →
      evaluate H policy input = .ok outcome →
      evaluate H { policy with rules := front ++ rule :: back } input = .ok outcome' →
      outcome.decision.severity ≤ outcome'.decision.severity := by
  refine ⟨?_, ?_, ?_, ?_⟩
  · intro a _ outcome h
    constructor
    · rintro ⟨outcome', h', heq⟩
      exact (decision_eq_iff h h').mp heq
    · intro hindifferent
      obtain ⟨outcome', h'⟩ := exists_evaluate_iff.mpr ⟨outcome, h⟩
      exact ⟨outcome', h', (decision_eq_iff h h').mpr hindifferent⟩
  · intro approvers hperm
    exact evaluate_congr_length hperm.length_eq
  · intro rules outcome outcome' hperm h h'
    exact decision_perm hperm h h'
  · intro front rule back outcome outcome' hrules hmatch h h'
    refine decision_mono (fun r hr => ?_) hmatch h h'
    rw [hrules, List.mem_append] at hr
    rw [List.mem_append, List.mem_cons]
    exact hr.imp_right Or.inr

/-- Two approvers approve, and fewer escalate. -/
def twoApprovers : PolicySet where
  id := "two"
  rules := [
    { id := "approve", title := "approve", when_ := { minApprovers := some (.ofInt 2) }
      decision := .approved },
    { id := "look", title := "look", when_ := { maxApprovers := some (.ofInt 1) }
      decision := .escalate }]

/-- A change that some approvers have approved. -/
def approvedBy (approvers : List String) : PolicyInput where
  kind := .prompt
  ref := "billing#system"
  environment := "prod"
  actor := { id := "user:a", method := "session" }
  approvers := approvers
  risk := none
  labels := none

theorem approvers_and_strictness_twoApprovers :
    ∃ outcome, evaluate Reference.host twoApprovers (approvedBy ["a", "b"]) = .ok outcome ∧
      ∃ outcome', evaluate Reference.host twoApprovers
          { approvedBy ["a", "b"] with approvers := "a" :: (approvedBy ["a", "b"]).approvers } =
        .ok outcome' ∧ outcome'.decision = outcome.decision := by
  obtain ⟨hagain, -⟩ :=
    approvers_and_strictness_iff Reference.host twoApprovers (approvedBy ["a", "b"])
  have hrun : (evaluate Reference.host twoApprovers (approvedBy ["a", "b"])).map
      PolicyOutcome.decision = .ok .approved := by decide
  obtain ⟨outcome, h, -⟩ := ok_of_map_eq hrun
  refine ⟨outcome, h, (hagain "a" List.mem_cons_self outcome h).mpr fun d => ?_⟩
  have hsame : ∀ rule ∈ twoApprovers.rules, rule.when_.allows 2 = rule.when_.allows 3 := by
    decide
  have hspeaks : SpeaksFor Reference.host twoApprovers (approvedBy ["a", "b"]) 2 d ↔
      SpeaksFor Reference.host twoApprovers (approvedBy ["a", "b"]) 3 d := by
    constructor
    · rintro (⟨hrule, hmatch, hcount⟩ | hnone)
      · exact .rule hrule ⟨hmatch, hsame _ hrule ▸ hcount⟩
      · exact .fallback fun rule hrule hat =>
          hnone rule hrule ⟨hat.1, (hsame rule hrule).trans hat.2⟩
    · rintro (⟨hrule, hmatch, hcount⟩ | hnone)
      · exact .rule hrule ⟨hmatch, (hsame _ hrule).trans hcount⟩
      · exact .fallback fun rule hrule hat => hnone rule hrule ⟨hat.1, hsame rule hrule ▸ hat.2⟩
  exact ⟨fun hd hnot => absurd (hspeaks.mp hd) hnot, fun hd hnot => absurd (hspeaks.mpr hd) hnot⟩

/-- One person who is listed twice approves what takes two. -/
theorem listed_twice_approves :
    ∃ outcome outcome', evaluate Reference.host twoApprovers (approvedBy ["a"]) = .ok outcome ∧
      evaluate Reference.host twoApprovers (approvedBy ["a", "a"]) = .ok outcome' ∧
      outcome.decision = .escalate ∧ outcome'.decision = .approved := by
  have honce : (evaluate Reference.host twoApprovers (approvedBy ["a"])).map
      PolicyOutcome.decision = .ok .escalate := by decide
  have htwice : (evaluate Reference.host twoApprovers (approvedBy ["a", "a"])).map
      PolicyOutcome.decision = .ok .approved := by decide
  obtain ⟨outcome, h, hescalate⟩ := ok_of_map_eq honce
  obtain ⟨outcome', h', happroved⟩ := ok_of_map_eq htwice
  exact ⟨outcome, outcome', h, h', hescalate, happroved⟩

end CoolSdk.Governance
