import CoolSdk.Platform.UnknownFacts
import CoolSdk.Runtime.ReferenceHost

/-!
# The strictest contribution wins

A rule that holds contributes its decision, and one that may hold what it says of unknown facts.
The decision is the strictest contribution, whatever the order of the rules. An empty `on_unknown`
passes validation as if it were left out, but it is not passed over for the next one in line.
-/

namespace CoolSdk

/-- What a rule contributes: its decision where its condition is true, and where that is unknown
the first that is given of its own `on_unknown`, the policy's, and `defer`. -/
inductive PolicyRule.Contributes (H : Host) (p : PolicyDocument) (facts : Facts)
    (rule : PolicyRule) : Decision → Prop
  | matched {d : Decision} (h : rule.when_.Evaluates H facts (.known true))
      (hd : Decision.ofText? rule.decision = some d) : Contributes H p facts rule d
  | unknown {d : Decision} (h : rule.when_.Evaluates H facts .unknown)
      (hd : Decision.ofText?
        (((nonEmpty rule.onUnknown).or (nonEmpty p.onUnknown)).getD "defer") = some d) :
      Contributes H p facts rule d

/-- A decision is the most severe contribution, or the default where there is none. -/
def MostSevere (H : Host) (p : PolicyDocument) (facts : Facts) (decision : Decision) : Prop :=
  ((∃ rule ∈ p.rules, rule.Contributes H p facts decision) ∧
    ∀ rule ∈ p.rules, ∀ d, rule.Contributes H p facts d → d.severity ≤ decision.severity) ∨
  (∀ rule ∈ p.rules, ∀ d, ¬rule.Contributes H p facts d) ∧
    Decision.ofText? p.default_ = some decision

/-- A rule is unknown, and an empty text is what comes of it. -/
def PolicyRule.Blank (H : Host) (p : PolicyDocument) (facts : Facts) (rule : PolicyRule) : Prop :=
  rule.when_.Evaluates H facts .unknown ∧ rule.onUnknown.or p.onUnknown = some ""

variable {H : Host} {p : PolicyDocument} {facts : Facts} {rule : PolicyRule} {d : Decision}

theorem Decision.severity_injective : Function.Injective Decision.severity := by
  intro a b h
  cases a <;> cases b <;> first | rfl | cases h

/-! ## Valid policies -/

/-- What the validator has found about a rule, wherever it stands. -/
structure PolicyRule.Fine (H : Host) (rule : PolicyRule) : Prop where
  id : rule.id ≠ ""
  decision : knownDecision rule.decision = true
  onUnknown : (nonEmpty rule.onUnknown).all knownDecision = true
  reason : rule.reason ≠ ""
  when_ : rule.when_.Sound H

theorem problem_nil_iff {holds : Bool} {text : String} : problem holds text = [] ↔ holds = true := by
  cases holds <;> simp [problem]

theorem ruleProblems_nil_iff {i : Nat} {ids : List String} :
    ruleProblems H i ids rule = [] ↔ rule.Fine H ∧ rule.id ∉ ids := by
  simp only [ruleProblems, List.append_eq_nil_iff, problem_nil_iff, Bool.and_eq_true,
    decide_eq_true_eq, Bool.not_eq_true', List.contains_eq_mem, decide_eq_false_iff_not]
  constructor
  · rintro ⟨⟨⟨⟨⟨hid, hfresh⟩, hdecision⟩, honUnknown⟩, hreason⟩, hwhen⟩
    exact ⟨⟨hid, hdecision, honUnknown, hreason, Condition.sound_of_problems hwhen⟩, hfresh⟩
  · rintro ⟨⟨hid, hdecision, honUnknown, hreason, hwhen⟩, hfresh⟩
    exact ⟨⟨⟨⟨⟨hid, hfresh⟩, hdecision⟩, honUnknown⟩, hreason⟩, hwhen _⟩

theorem rulesProblems_nil_iff {rules : List PolicyRule} {i : Nat} {ids : List String} :
    rulesProblems H i ids rules = [] ↔ (∀ rule ∈ rules, rule.Fine H ∧ rule.id ∉ ids) ∧
      (rules.map PolicyRule.id).Nodup := by
  induction rules generalizing i ids with
  | nil => simp [rulesProblems]
  | cons rule rules ih =>
    rw [rulesProblems, List.append_eq_nil_iff, ruleProblems_nil_iff, ih, List.forall_mem_cons,
      List.map_cons, List.nodup_cons]
    constructor
    · rintro ⟨hrule, hrules, hnodup⟩
      refine ⟨⟨hrule, fun r hr => ?_⟩, ?_, hnodup⟩
      · exact ⟨(hrules r hr).1, fun hid => (hrules r hr).2 (List.mem_cons_of_mem _ hid)⟩
      · intro hmem
        obtain ⟨r, hr, hid⟩ := List.mem_map.mp hmem
        exact (hrules r hr).2 (hid ▸ List.mem_cons_self)
    · rintro ⟨⟨hrule, hrules⟩, hfresh, hnodup⟩
      refine ⟨hrule, fun r hr => ⟨(hrules r hr).1, fun hid => ?_⟩, hnodup⟩
      rcases List.mem_cons.mp hid with hid | hid
      · exact hfresh (hid ▸ List.mem_map_of_mem hr)
      · exact (hrules r hr).2 hid

theorem fine_of_valid (h : validatePolicy H p = []) (hrule : rule ∈ p.rules) : rule.Fine H := by
  simp only [validatePolicy, List.append_eq_nil_iff] at h
  exact ((rulesProblems_nil_iff.mp h.2).1 rule hrule).1

theorem onUnknown_of_valid (h : validatePolicy H p = []) :
    (nonEmpty p.onUnknown).all knownDecision = true := by
  simp only [validatePolicy, List.append_eq_nil_iff, problem_nil_iff] at h
  exact h.1.2

/-- Validity does not depend on the order of the rules. -/
theorem validatePolicy_perm {rules : List PolicyRule} (h : rules.Perm p.rules) :
    validatePolicy H { p with rules := rules } = [] ↔ validatePolicy H p = [] := by
  simp only [validatePolicy, List.append_eq_nil_iff, rulesProblems_nil_iff, h.mem_iff,
    (h.map PolicyRule.id).nodup_iff]

/-! ## The contributions -/

/-- What a rule that matches or may match puts into the record. -/
theorem matchRule_some {m : MatchedRule} (hsound : rule.when_.Sound H)
    (h : matchRule H p facts rule = .ok (some m)) :
    (rule.when_.Evaluates H facts (.known true) ∧ m.decision = rule.decision) ∨
      (rule.when_.Evaluates H facts .unknown ∧
        m.decision = (rule.onUnknown.or p.onUnknown).getD "defer") := by
  rw [matchRule] at h
  obtain ⟨⟨v, unknowns⟩, hv, h⟩ := bind_eq_ok.mp h
  cases v with
  | known b =>
    cases b with
    | false => cases h
    | true =>
      cases h
      exact Or.inl ⟨hsound.evaluates hv, rfl⟩
  | unknown =>
    cases h
    exact Or.inr ⟨hsound.evaluates hv, rfl⟩
  | undefined => cases h

/-- A rule that contributes is in the record. -/
theorem matchRule_of_contributes (h : rule.Contributes H p facts d) :
    ∃ m, matchRule H p facts rule = .ok (some m) := by
  cases h with
  | matched h _ =>
    obtain ⟨_, hv⟩ := h []
    exact ⟨_, by rw [matchRule, hv]; rfl⟩
  | unknown h _ =>
    obtain ⟨_, hv⟩ := h []
    exact ⟨_, by rw [matchRule, hv]; rfl⟩

/-- A rule's text in the record names what the rule contributes, unless that is blank. -/
theorem contributes_iff {m : MatchedRule} (hsound : rule.when_.Sound H)
    (h : matchRule H p facts rule = .ok (some m)) (hblank : ¬rule.Blank H p facts) :
    rule.Contributes H p facts d ↔ Decision.ofText? m.decision = some d := by
  rcases matchRule_some hsound h with ⟨heval, hm⟩ | ⟨heval, hm⟩
  · rw [hm]
    constructor
    · rintro (⟨-, hd⟩ | ⟨heval', -⟩)
      · exact hd
      · obtain ⟨_, hv⟩ := heval' []
        cases heval.unique hv
    · exact .matched heval
  · have hnext : (nonEmpty rule.onUnknown).or (nonEmpty p.onUnknown) =
        rule.onUnknown.or p.onUnknown := by
      have hne : rule.onUnknown.or p.onUnknown ≠ some "" := fun hempty => hblank ⟨heval, hempty⟩
      cases hrule : rule.onUnknown with
      | none =>
        rw [hrule, Option.none_or] at hne
        cases hpolicy : p.onUnknown with
        | none => rfl
        | some s =>
          have hs : s ≠ "" := fun hempty => hne (by rw [hpolicy, hempty])
          simp [nonEmpty, hs]
      | some s =>
        have hs : s ≠ "" := fun hempty => hne (by rw [hrule, hempty]; rfl)
        simp [nonEmpty, hs]
    rw [hm, ← hnext]
    constructor
    · rintro (⟨heval', -⟩ | ⟨-, hd⟩)
      · obtain ⟨_, hv⟩ := heval' []
        cases heval.unique hv
      · exact hd
    · exact .unknown heval

/-- A blank text names no decision. -/
theorem ofText?_of_blank {m : MatchedRule} (hsound : rule.when_.Sound H)
    (h : matchRule H p facts rule = .ok (some m)) (hblank : rule.Blank H p facts) :
    Decision.ofText? m.decision = none := by
  rcases matchRule_some hsound h with ⟨heval, -⟩ | ⟨-, hm⟩
  · obtain ⟨_, hv⟩ := hblank.1 []
    cases heval.unique hv
  · rw [hm, hblank.2]
    rfl

/-- A rule in the record of a valid policy contributes something. -/
theorem exists_contributes {m : MatchedRule} (hvalid : validatePolicy H p = [])
    (hrule : rule ∈ p.rules) (h : matchRule H p facts rule = .ok (some m)) :
    ∃ d, rule.Contributes H p facts d := by
  have hfine := fine_of_valid hvalid hrule
  rcases matchRule_some hfine.when_ h with ⟨heval, -⟩ | ⟨heval, -⟩
  · obtain ⟨d, hd⟩ := Option.isSome_iff_exists.mp (ofText?_isSome_of_knownDecision hfine.decision)
    exact ⟨d, .matched heval hd⟩
  · have hknown : knownDecision
        (((nonEmpty rule.onUnknown).or (nonEmpty p.onUnknown)).getD "defer") = true := by
      have hown := hfine.onUnknown
      have hpolicy := onUnknown_of_valid hvalid
      cases hr : nonEmpty rule.onUnknown with
      | some s => simpa [hr] using hown
      | none =>
        cases hp : nonEmpty p.onUnknown with
        | some s => simpa [hp] using hpolicy
        | none => decide
    obtain ⟨d, hd⟩ := Option.isSome_iff_exists.mp (ofText?_isSome_of_knownDecision hknown)
    exact ⟨d, .unknown heval hd⟩

/-! ## The decision -/

theorem mem_matchRules {rules : List PolicyRule} {ms : List MatchedRule}
    (h : matchRules H p facts rules = .ok ms) {m : MatchedRule} :
    m ∈ ms ↔ ∃ rule ∈ rules, matchRule H p facts rule = .ok (some m) := by
  induction rules generalizing ms with
  | nil =>
    cases h
    simp
  | cons rule rules ih =>
    simp only [matchRules, bind_eq_ok] at h
    obtain ⟨first, hfirst, rest, hrest, h⟩ := h
    cases h
    rw [List.mem_append, ih hrest, List.exists_mem_cons_iff, hfirst, Option.mem_toList]
    simp

/-- The reduction keeps a bound of everything it has seen, and has seen what it keeps. -/
theorem foldl_restrict (ms : List MatchedRule) (acc : Decision) :
    acc.severity ≤ (ms.foldl restrict acc).severity ∧
      (∀ m ∈ ms, ∀ d, Decision.ofText? m.decision = some d →
        d.severity ≤ (ms.foldl restrict acc).severity) ∧
      (ms.foldl restrict acc = acc ∨
        ∃ m ∈ ms, Decision.ofText? m.decision = some (ms.foldl restrict acc)) := by
  induction ms generalizing acc with
  | nil => exact ⟨le_rfl, fun m hm => absurd hm List.not_mem_nil, Or.inl rfl⟩
  | cons m ms ih =>
    obtain ⟨hacc, hseen, hkept⟩ := ih (restrict acc m)
    have hstep : acc.severity ≤ (restrict acc m).severity ∧
        (∀ d, Decision.ofText? m.decision = some d → d.severity ≤ (restrict acc m).severity) ∧
        (restrict acc m = acc ∨ Decision.ofText? m.decision = some (restrict acc m)) := by
      rw [restrict]
      cases hm : Decision.ofText? m.decision with
      | none => exact ⟨le_rfl, nofun, Or.inl rfl⟩
      | some e =>
        dsimp only
        split_ifs with hlt
        · exact ⟨hlt.le, fun d hd => (Option.some.inj hd) ▸ le_rfl, Or.inr rfl⟩
        · exact ⟨le_rfl, fun d hd => (Option.some.inj hd) ▸ not_lt.mp hlt, Or.inl rfl⟩
    obtain ⟨hle, hfirst, horigin⟩ := hstep
    rw [List.foldl_cons]
    refine ⟨hle.trans hacc, ?_, ?_⟩
    · intro m' hm' d hd
      rcases List.mem_cons.mp hm' with rfl | hm'
      · exact (hfirst d hd).trans hacc
      · exact hseen m' hm' d hd
    · rcases hkept with hkept | ⟨m', hm', hd⟩
      · rcases horigin with horigin | horigin
        · exact Or.inl (hkept.trans horigin)
        · exact Or.inr ⟨m, List.mem_cons_self, by rw [hkept, horigin]⟩
      · exact Or.inr ⟨m', List.mem_cons_of_mem m hm', hd⟩

variable {now : JsNumber} {inputRefs : List String} {r : PolicyDecisionRecord}

/-- The decision of a record, from the contributions it lists. -/
theorem evaluatePolicy_decision (h : evaluatePolicy H p facts now inputRefs = .ok r) :
    validatePolicy H p = [] ∧ ∃ ms, matchRules H p facts p.rules = .ok ms ∧
      (ms = [] ∧ Decision.ofText? p.default_ = some r.decision ∨
        ms ≠ [] ∧ r.decision = ms.foldl restrict .allow) := by
  unfold evaluatePolicy at h
  split at h
  · rename_i hvalid
    obtain ⟨ms, hms, h⟩ := bind_eq_ok.mp h
    simp only [bind_eq_ok] at h
    obtain ⟨_, _, _, _, _, _, h⟩ := h
    cases h
    refine ⟨hvalid, ms, hms, ?_⟩
    cases ms with
    | nil => exact Or.inl ⟨rfl, by simp⟩
    | cons m ms => exact Or.inr ⟨List.cons_ne_nil m ms, rfl⟩
  · cases h

/-- The decision is the most severe contribution exactly where every rule that comes out blank
would have contributed no more than another rule does. -/
theorem mostSevere_iff (h : evaluatePolicy H p facts now inputRefs = .ok r) :
    MostSevere H p facts r.decision ↔
      ∀ rule ∈ p.rules, rule.Blank H p facts → ∀ d, rule.Contributes H p facts d →
        d = .allow ∨ ∃ other ∈ p.rules, ¬other.Blank H p facts ∧
          ∃ d', other.Contributes H p facts d' ∧ d.severity ≤ d'.severity := by
  obtain ⟨hvalid, ms, hms, hdecision⟩ := evaluatePolicy_decision h
  have hsound : ∀ rule ∈ p.rules, rule.when_.Sound H := fun rule hrule =>
    (fine_of_valid hvalid hrule).when_
  -- the record names what the rules contribute that do not come out blank
  have hnames : ∀ d, (∃ m ∈ ms, Decision.ofText? m.decision = some d) ↔
      ∃ rule ∈ p.rules, ¬rule.Blank H p facts ∧ rule.Contributes H p facts d := by
    intro d
    constructor
    · rintro ⟨m, hm, hd⟩
      obtain ⟨rule, hrule, hmatch⟩ := (mem_matchRules hms).mp hm
      have hblank : ¬rule.Blank H p facts := by
        intro hblank
        cases (ofText?_of_blank (hsound rule hrule) hmatch hblank).symm.trans hd
      exact ⟨rule, hrule, hblank, (contributes_iff (hsound rule hrule) hmatch hblank).mpr hd⟩
    · rintro ⟨rule, hrule, hblank, hd⟩
      obtain ⟨m, hmatch⟩ := matchRule_of_contributes hd
      exact ⟨m, (mem_matchRules hms).mpr ⟨rule, hrule, hmatch⟩,
        (contributes_iff (hsound rule hrule) hmatch hblank).mp hd⟩
  have hempty : (∃ rule ∈ p.rules, ∃ d, rule.Contributes H p facts d) → ms ≠ [] := by
    rintro ⟨rule, hrule, d, hd⟩
    obtain ⟨m, hmatch⟩ := matchRule_of_contributes hd
    exact List.ne_nil_of_mem ((mem_matchRules hms).mpr ⟨rule, hrule, hmatch⟩)
  obtain ⟨-, hbound, horigin⟩ := foldl_restrict ms .allow
  constructor
  · intro hsevere rule hrule hblank d hd
    rcases hsevere with ⟨-, hmost⟩ | ⟨hnone, -⟩
    · rcases hdecision with ⟨hnil, -⟩ | ⟨-, hfold⟩
      · exact absurd hnil (hempty ⟨rule, hrule, d, hd⟩)
      · have hle := hmost rule hrule d hd
        rw [hfold] at hle
        rcases horigin with hallow | hnamed
        · rw [hallow] at hle
          exact Or.inl (Decision.severity_injective (Nat.le_zero.mp hle))
        · obtain ⟨other, hother, hplain, hd'⟩ := (hnames _).mp hnamed
          exact Or.inr ⟨other, hother, hplain, _, hd', hle⟩
    · exact absurd hd (hnone rule hrule d)
  · intro hcovered
    rcases hdecision with ⟨hnil, hdefault⟩ | ⟨hne, hfold⟩
    · refine Or.inr ⟨fun rule hrule d hd => ?_, hdefault⟩
      exact hempty ⟨rule, hrule, d, hd⟩ hnil
    · have hmost : ∀ rule ∈ p.rules, ∀ d, rule.Contributes H p facts d →
          d.severity ≤ r.decision.severity := by
        intro rule hrule d hd
        rw [hfold]
        by_cases hblank : rule.Blank H p facts
        · rcases hcovered rule hrule hblank d hd with rfl | ⟨other, hother, hplain, d', hd', hle⟩
          · exact Nat.zero_le _
          · obtain ⟨m, hm, hm'⟩ := (hnames d').mpr ⟨other, hother, hplain, hd'⟩
            exact hle.trans (hbound m hm d' hm')
        · obtain ⟨m, hm, hm'⟩ := (hnames d).mpr ⟨rule, hrule, hblank, hd⟩
          exact hbound m hm d hm'
      refine Or.inl ⟨?_, hmost⟩
      rcases horigin with hallow | hnamed
      · -- nothing is stricter than `allow`, so `allow` is what some rule contributes
        obtain ⟨m, hm⟩ := List.exists_mem_of_ne_nil ms hne
        obtain ⟨rule, hrule, hmatch⟩ := (mem_matchRules hms).mp hm
        obtain ⟨d, hd⟩ := exists_contributes hvalid hrule hmatch
        have hle := hmost rule hrule d hd
        rw [hfold, hallow] at hle
        have hd' : d = .allow := Decision.severity_injective (Nat.le_zero.mp hle)
        rw [hd'] at hd
        rw [hfold, hallow]
        exact ⟨rule, hrule, hd⟩
      · obtain ⟨rule, hrule, -, hd⟩ := (hnames _).mp hnamed
        rw [hfold]
        exact ⟨rule, hrule, hd⟩

/-- The decision does not depend on the order of the rules. -/
theorem evaluatePolicy_perm {rules : List PolicyRule} (hperm : rules.Perm p.rules)
    {r' : PolicyDecisionRecord} (h : evaluatePolicy H p facts now inputRefs = .ok r)
    (h' : evaluatePolicy H { p with rules := rules } facts now inputRefs = .ok r') :
    r'.decision = r.decision := by
  obtain ⟨-, ms, hms, hdecision⟩ := evaluatePolicy_decision h
  obtain ⟨-, ms', hms', hdecision'⟩ := evaluatePolicy_decision h'
  have hmem : ∀ m, m ∈ ms' ↔ m ∈ ms := by
    intro m
    rw [mem_matchRules hms', mem_matchRules hms]
    exact exists_congr fun rule => and_congr hperm.mem_iff Iff.rfl
  rcases hdecision with ⟨hnil, hdefault⟩ | ⟨hne, hfold⟩
  · rcases hdecision' with ⟨-, hdefault'⟩ | ⟨hne', -⟩
    · exact Option.some.inj (hdefault'.symm.trans hdefault)
    · obtain ⟨m, hm⟩ := List.exists_mem_of_ne_nil ms' hne'
      exact absurd ((hmem m).mp hm) (hnil ▸ List.not_mem_nil)
  · rcases hdecision' with ⟨hnil', -⟩ | ⟨-, hfold'⟩
    · obtain ⟨m, hm⟩ := List.exists_mem_of_ne_nil ms hne
      exact absurd ((hmem m).mpr hm) (hnil' ▸ List.not_mem_nil)
    · rw [hfold, hfold']
      have hle : ∀ {l l' : List MatchedRule}, (∀ m ∈ l, m ∈ l') →
          (l.foldl restrict .allow).severity ≤ (l'.foldl restrict .allow).severity := by
        intro l l' hsub
        obtain ⟨-, hbound, -⟩ := foldl_restrict l' .allow
        rcases (foldl_restrict l .allow).2.2 with hallow | ⟨m, hm, hd⟩
        · rw [hallow]
          exact Nat.zero_le _
        · exact hbound m (hsub m hm) _ hd
      apply Decision.severity_injective
      exact le_antisymm (hle fun m hm => (hmem m).mp hm) (hle fun m hm => (hmem m).mpr hm)

/-- Unknown never becomes safe, exactly: a condition's definite answer stays when missing facts come
in where facts that the map holds settle it, and a valid policy decides for its most severe
contribution where no rule that comes out blank would contribute more than the others. The order
of the rules never matters. -/
theorem unknown_never_safe_iff (H : Host) :
    (∀ facts c path, conditionProblems H c path = [] → c.existsFree = true →
      (c.Stable H facts ↔ ∀ b, c.Evaluates H facts (.known b) → Settled H facts c b)) ∧
    (∀ p facts now inputRefs r, evaluatePolicy H p facts now inputRefs = .ok r →
      (MostSevere H p facts r.decision ↔
        ∀ rule ∈ p.rules, rule.Blank H p facts → ∀ d, rule.Contributes H p facts d →
          d = .allow ∨ ∃ other ∈ p.rules, ¬other.Blank H p facts ∧
            ∃ d', other.Contributes H p facts d' ∧ d.severity ≤ d'.severity)) ∧
    ∀ (p : PolicyDocument) rules facts now inputRefs, rules.Perm p.rules →
      (validatePolicy H { p with rules := rules } = [] ↔ validatePolicy H p = []) ∧
      ∀ r r', evaluatePolicy H p facts now inputRefs = .ok r →
        evaluatePolicy H { p with rules := rules } facts now inputRefs = .ok r' →
        r'.decision = r.decision := by
  refine ⟨?_, ?_, ?_⟩
  · intro facts c path hproblems hfree
    exact (Condition.sound_of_problems hproblems).stable_iff hfree
  · intro p facts now inputRefs r h
    exact mostSevere_iff h
  · intro p rules facts now inputRefs hperm
    exact ⟨validatePolicy_perm hperm, fun r r' h h' => evaluatePolicy_perm hperm h h'⟩

/-- A policy about the environment and an owner, which says nothing of unknown facts. -/
def ownerPolicy (onUnknown : Option String) : PolicyDocument where
  id := "owner"
  version := "1"
  mode := "enforce"
  default_ := "deny"
  onUnknown := onUnknown
  rules := [
    { id := "test", when_ := .fact "env" "eq" (some (.str "test")), decision := "audit_only"
      reason := "test" },
    { id := "owned", when_ := .fact "owner" "eq" (some (.str "ops")), decision := "quarantine"
      reason := "owned" }]

theorem unknown_never_safe_ownerPolicy :
    (Condition.fact "env" "eq" (some (.str "test"))).Stable Reference.host
      [("env", .str "test")] ∧
    ∃ r, evaluatePolicy Reference.host (ownerPolicy none) [("env", .str "test")] (.ofInt 0) [] =
        .ok r ∧
      MostSevere Reference.host (ownerPolicy none) [("env", .str "test")] r.decision ∧
      ∃ r', evaluatePolicy Reference.host
          { ownerPolicy none with rules := (ownerPolicy none).rules.reverse }
          [("env", .str "test")] (.ofInt 0) [] = .ok r' ∧ r'.decision = r.decision := by
  obtain ⟨hstable, hsevere, horder⟩ := unknown_never_safe_iff Reference.host
  have hrun : (evaluatePolicy Reference.host (ownerPolicy none) [("env", .str "test")] (.ofInt 0)
      []).map PolicyDecisionRecord.decision = .ok .defer := by decide
  have hrun' : (evaluatePolicy Reference.host
      { ownerPolicy none with rules := (ownerPolicy none).rules.reverse }
      [("env", .str "test")] (.ofInt 0) []).map PolicyDecisionRecord.decision = .ok .defer := by
    decide
  obtain ⟨r, hr, -⟩ := ok_of_map_eq hrun
  obtain ⟨r', hr', -⟩ := ok_of_map_eq hrun'
  refine ⟨?_, r, hr, ?_, r', hr', ?_⟩
  · apply (hstable _ _ "" (by decide) rfl).mpr
    intro b h
    obtain ⟨_, heval⟩ := h []
    cases heval
    exact .fact rfl rfl rfl
  · apply (hsevere _ _ _ _ r hr).mpr
    rintro rule hrule ⟨-, hblank⟩
    simp only [ownerPolicy, List.mem_cons, List.not_mem_nil, or_false] at hrule
    rcases hrule with rfl | rfl <;> cases hblank
  · exact (horder (ownerPolicy none) _ _ _ _ (List.reverse_perm _)).2 r r' hr hr'

/-- A fact that no map holds answers under an inherited name, and the answer changes when the fact
comes in. An empty `on_unknown` lets an unknown rule contribute nothing, so that `allow` is left. -/
theorem missing_fact_answers :
    (conditionProblems Reference.host (.fact "constructor" "neq" (some (.str "root"))) "" = [] ∧
      ¬(Condition.fact "constructor" "neq" (some (.str "root"))).Stable Reference.host []) ∧
    ∃ r, evaluatePolicy Reference.host (ownerPolicy (some "")) [] (.ofInt 0) [] = .ok r ∧
      r.decision = .allow ∧ ¬MostSevere Reference.host (ownerPolicy (some "")) [] r.decision := by
  refine ⟨⟨by decide, ?_⟩, ?_⟩
  · intro hstable
    have hbefore : (Condition.fact "constructor" "neq" (some (.str "root"))).Evaluates
        Reference.host [] (.known true) := fun unknowns => ⟨unknowns, rfl⟩
    obtain ⟨_, hafter⟩ := hstable true hbefore [("constructor", .str "root")] nofun []
    cases hafter
  · have hrun : (evaluatePolicy Reference.host (ownerPolicy (some "")) [] (.ofInt 0) []).map
        PolicyDecisionRecord.decision = .ok .allow := by decide
    obtain ⟨r, hr, hallow⟩ := ok_of_map_eq hrun
    refine ⟨r, hr, hallow, ?_⟩
    have hcontributes : ∀ rule ∈ (ownerPolicy (some "")).rules,
        rule.Contributes Reference.host (ownerPolicy (some "")) [] .defer := by
      intro rule hrule
      simp only [ownerPolicy, List.mem_cons, List.not_mem_nil, or_false] at hrule
      rcases hrule with rfl | rfl <;> exact .unknown (fun unknowns => ⟨_, rfl⟩) rfl
    rw [hallow]
    rintro (⟨-, hmost⟩ | ⟨hnone, -⟩)
    · exact absurd (hmost _ List.mem_cons_self .defer (hcontributes _ List.mem_cons_self))
        (by decide)
    · exact hnone _ List.mem_cons_self _ (hcontributes _ List.mem_cons_self)

end CoolSdk
