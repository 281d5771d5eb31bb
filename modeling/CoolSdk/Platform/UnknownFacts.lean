import CoolSdk.Platform.Evaluation
import CoolSdk.Runtime.Json

/-!
# Facts that were missing

A definite answer should stay when facts come in that were missing. It does where it rests on
facts that the map holds: a name that every object inherits reads as present before any fact of
that name is known.
-/

namespace CoolSdk

/-- Induction on the nesting of a condition. -/
theorem Condition.ind {P : Condition → Prop} (all : ∀ cs, (∀ c ∈ cs, P c) → P (.all cs))
    (any : ∀ cs, (∀ c ∈ cs, P c) → P (.any cs)) (not : ∀ c, P c → P (.not c))
    (fact : ∀ name op value, P (.fact name op value)) (null : P .null) (c : Condition) : P c :=
  Condition.rec (motive_1 := P) (motive_2 := fun cs => ∀ c ∈ cs, P c) all any not fact null
    (fun _ h => absurd h List.not_mem_nil)
    (fun _ _ hc hcs => List.forall_mem_cons.mpr ⟨hc, hcs⟩) c

mutual

/-- Whether a condition is built without `exists`. -/
def Condition.existsFree : Condition → Bool
  | .all cs | .any cs => Condition.existsFreeList cs
  | .not c => c.existsFree
  | .fact _ op _ => decide (op ≠ "exists")
  | .null => true

def Condition.existsFreeList : List Condition → Bool
  | [] => true
  | c :: cs => c.existsFree && Condition.existsFreeList cs

end

/-- Facts that hold what others hold, and anything where those hold nothing or null. -/
def Facts.Extends (facts' facts : Facts) : Prop :=
  ∀ name v, Entries.get facts name = some v → v.nullish = false → Entries.get facts' name = some v

/-- Facts that the map holds itself settle a condition. -/
inductive Settled (H : Host) (facts : Facts) : Condition → Bool → Prop
  | fact {name op : String} {value : Option JsValue} {v : JsValue} {b : Bool}
      (hget : Entries.get facts name = some v) (hv : v.nullish = false)
      (happly : applyOp H op v (value.getD .undefined) = .ok (.known b)) :
      Settled H facts (.fact name op value) b
  | not {c : Condition} {b : Bool} (h : Settled H facts c b) : Settled H facts (.not c) !b
  | all {cs : List Condition} (h : ∀ c ∈ cs, Settled H facts c true) : Settled H facts (.all cs) true
  | all_false {cs : List Condition} {c : Condition} (hc : c ∈ cs) (h : Settled H facts c false) :
      Settled H facts (.all cs) false
  | any {cs : List Condition} (h : ∀ c ∈ cs, Settled H facts c false) :
      Settled H facts (.any cs) false
  | any_true {cs : List Condition} {c : Condition} (hc : c ∈ cs) (h : Settled H facts c true) :
      Settled H facts (.any cs) true

variable {H : Host} {facts facts' : Facts} {c : Condition} {cs : List Condition}

/-! ## Conditions without problems -/

theorem existsFreeList_iff : Condition.existsFreeList cs = true ↔ ∀ c ∈ cs, c.existsFree = true := by
  induction cs with
  | nil => simp [Condition.existsFreeList]
  | cons c cs ih => rw [Condition.existsFreeList, Bool.and_eq_true, ih, List.forall_mem_cons]

/-- The validator finds no problem in a condition, wherever it stands. -/
def Condition.Sound (H : Host) (c : Condition) : Prop := ∀ path, conditionProblems H c path = []

theorem sound_list {path : String} {i : Nat}
    (hall : ∀ c ∈ cs, ∀ path, conditionProblems H c path = [] → c.Sound H)
    (h : conditionProblemsList H cs path i = []) : ∀ c ∈ cs, c.Sound H := by
  induction cs generalizing i with
  | nil => exact fun c hc => absurd hc List.not_mem_nil
  | cons c cs ih =>
    rw [conditionProblemsList, List.append_eq_nil_iff] at h
    obtain ⟨hc, hcs⟩ := List.forall_mem_cons.mp hall
    exact List.forall_mem_cons.mpr ⟨hc _ h.1, ih hcs h.2⟩

theorem problems_list (h : ∀ c ∈ cs, c.Sound H) (path : String) (i : Nat) :
    conditionProblemsList H cs path i = [] := by
  induction cs generalizing i with
  | nil => rfl
  | cons c cs ih =>
    obtain ⟨hc, hcs⟩ := List.forall_mem_cons.mp h
    rw [conditionProblemsList, hc, ih hcs, List.append_nil]

/-- Where a condition stands does not matter to its problems. -/
theorem Condition.sound_of_problems {path : String} (h : conditionProblems H c path = []) :
    c.Sound H := by
  induction c using Condition.ind generalizing path with
  | all cs ih => exact fun path' => problems_list (sound_list (fun c hc _ => ih c hc) h) _ 0
  | any cs ih => exact fun path' => problems_list (sound_list (fun c hc _ => ih c hc) h) _ 0
  | not c ih => exact fun path' => ih h _
  | fact name op value =>
    intro path'
    rw [conditionProblems] at h ⊢
    split_ifs at h ⊢
    rfl
  | null => cases h

theorem Condition.Sound.mem_all (h : (Condition.all cs).Sound H) : ∀ c ∈ cs, c.Sound H :=
  sound_list (fun _ _ _ => Condition.sound_of_problems) (h "")

theorem Condition.Sound.mem_any (h : (Condition.any cs).Sound H) : ∀ c ∈ cs, c.Sound H :=
  sound_list (fun _ _ _ => Condition.sound_of_problems) (h "")

/-! ## What a condition evaluates to -/

/-- The value of a condition, whatever was found missing before. -/
def Condition.Evaluates (H : Host) (facts : Facts) (c : Condition) (v : Tri) : Prop :=
  ∀ unknowns, ∃ unknowns', evaluateCondition H c facts unknowns = .ok (v, unknowns')

/-- The loop over the parts of a condition, up to the first that has a value. -/
def evaluateUpTo (H : Host) (stop : Bool) :
    List Condition → Facts → List String → Bool → Except String (Tri × List String)
  | [], _, unknowns, sawUnknown => .ok (if sawUnknown then .unknown else .known !stop, unknowns)
  | c :: cs, facts, unknowns, sawUnknown => do
    let (v, unknowns) ← evaluateCondition H c facts unknowns
    if v = .known stop then .ok (.known stop, unknowns)
    else evaluateUpTo H stop cs facts unknowns (sawUnknown || decide (v = .unknown))

theorem evaluateAll_eq (unknowns : List String) (sawUnknown : Bool) :
    evaluateAll H cs facts unknowns sawUnknown =
      evaluateUpTo H false cs facts unknowns sawUnknown := by
  induction cs generalizing unknowns sawUnknown with
  | nil => rfl
  | cons c cs ih =>
    rw [evaluateAll, evaluateUpTo]
    cases hc : evaluateCondition H c facts unknowns with
    | error e => rfl
    | ok r =>
      obtain ⟨v, unknowns'⟩ := r
      cases v with
      | known b => cases b <;> simp [ok_bind, ih]
      | unknown => simp [ok_bind, ih]
      | undefined => simp [ok_bind, ih]

theorem evaluateAny_eq (unknowns : List String) (sawUnknown : Bool) :
    evaluateAny H cs facts unknowns sawUnknown =
      evaluateUpTo H true cs facts unknowns sawUnknown := by
  induction cs generalizing unknowns sawUnknown with
  | nil => rfl
  | cons c cs ih =>
    rw [evaluateAny, evaluateUpTo]
    cases hc : evaluateCondition H c facts unknowns with
    | error e => rfl
    | ok r =>
      obtain ⟨v, unknowns'⟩ := r
      cases v with
      | known b => cases b <;> simp [ok_bind, ih]
      | unknown => simp [ok_bind, ih]
      | undefined => simp [ok_bind, ih]

/-- No part stops the loop. -/
theorem evaluateUpTo_through {stop : Bool} (h : ∀ c ∈ cs, c.Evaluates H facts (.known !stop))
    (unknowns : List String) :
    ∃ unknowns', evaluateUpTo H stop cs facts unknowns false = .ok (.known !stop, unknowns') := by
  induction cs generalizing unknowns with
  | nil => exact ⟨unknowns, rfl⟩
  | cons c cs ih =>
    obtain ⟨hc, hcs⟩ := List.forall_mem_cons.mp h
    obtain ⟨unknowns', heval⟩ := hc unknowns
    obtain ⟨last, hlast⟩ := ih hcs unknowns'
    refine ⟨last, ?_⟩
    rw [evaluateUpTo, heval, ok_bind]
    cases stop <;> simpa using hlast

/-- Some part stops the loop, where none throws. -/
theorem evaluateUpTo_stops {stop : Bool} (h : ∀ c ∈ cs, ∃ v, c.Evaluates H facts v) (hc : c ∈ cs)
    (hstop : c.Evaluates H facts (.known stop)) (unknowns : List String) (sawUnknown : Bool) :
    ∃ unknowns', evaluateUpTo H stop cs facts unknowns sawUnknown =
      .ok (.known stop, unknowns') := by
  induction cs generalizing unknowns sawUnknown with
  | nil => exact absurd hc List.not_mem_nil
  | cons d cs ih =>
    obtain ⟨⟨v, hd⟩, hcs⟩ := List.forall_mem_cons.mp h
    obtain ⟨unknowns', heval⟩ := hd unknowns
    rw [evaluateUpTo, heval, ok_bind]
    dsimp only
    by_cases hv : v = .known stop
    · exact ⟨unknowns', by rw [if_pos hv]⟩
    · rw [if_neg hv]
      rcases List.mem_cons.mp hc with rfl | hc
      · obtain ⟨_, heval'⟩ := hstop unknowns
        cases heval.symm.trans heval'
        exact absurd rfl hv
      · exact ih hcs hc unknowns' _

/-- What the loop's value says about the parts, where each has one. -/
theorem of_evaluateUpTo {stop b : Bool} {unknowns last : List String} {sawUnknown : Bool}
    (h : ∀ c ∈ cs, ∃ v, v ≠ .undefined ∧ c.Evaluates H facts v)
    (heval : evaluateUpTo H stop cs facts unknowns sawUnknown = .ok (.known b, last)) :
    (b = stop ∧ ∃ c ∈ cs, c.Evaluates H facts (.known stop)) ∨
      (b = (!stop) ∧ sawUnknown = false ∧ ∀ c ∈ cs, c.Evaluates H facts (.known !stop)) := by
  induction cs generalizing unknowns sawUnknown with
  | nil =>
    rw [evaluateUpTo] at heval
    cases sawUnknown <;> cases heval
    exact Or.inr ⟨rfl, rfl, fun c hc => absurd hc List.not_mem_nil⟩
  | cons c cs ih =>
    obtain ⟨⟨v, hdefined, hc⟩, hcs⟩ := List.forall_mem_cons.mp h
    obtain ⟨unknowns', hv⟩ := hc unknowns
    rw [evaluateUpTo, hv, ok_bind] at heval
    dsimp only at heval
    split_ifs at heval with hstop
    · cases heval
      rw [hstop] at hc
      exact Or.inl ⟨rfl, c, List.mem_cons_self, hc⟩
    · rcases ih hcs heval with ⟨hb, d, hd, hdstop⟩ | ⟨hb, hsaw, hthrough⟩
      · exact Or.inl ⟨hb, d, List.mem_cons_of_mem c hd, hdstop⟩
      · rw [Bool.or_eq_false_iff, decide_eq_false_iff_not] at hsaw
        have hvalue : v = .known !stop := by
          cases v with
          | known a => cases a <;> cases stop <;> simp_all
          | unknown => exact absurd rfl hsaw.2
          | undefined => exact absurd rfl hdefined
        rw [hvalue] at hc
        exact Or.inr ⟨hb, hsaw.1, List.forall_mem_cons.mpr ⟨hc, hthrough⟩⟩

/-- The loop has a value where every part has one. -/
theorem exists_evaluateUpTo (stop : Bool)
    (h : ∀ c ∈ cs, ∃ v, v ≠ .undefined ∧ c.Evaluates H facts v) (sawUnknown : Bool) :
    ∃ v, v ≠ .undefined ∧ ∀ unknowns, ∃ unknowns',
      evaluateUpTo H stop cs facts unknowns sawUnknown = .ok (v, unknowns') := by
  induction cs generalizing sawUnknown with
  | nil =>
    refine ⟨if sawUnknown then .unknown else .known !stop, ?_, fun unknowns => ⟨unknowns, rfl⟩⟩
    split_ifs <;> simp
  | cons c cs ih =>
    obtain ⟨⟨v, -, hc⟩, hcs⟩ := List.forall_mem_cons.mp h
    by_cases hstop : v = .known stop
    · refine ⟨v, hstop ▸ nofun, fun unknowns => ?_⟩
      obtain ⟨unknowns', heval⟩ := hc unknowns
      refine ⟨unknowns', ?_⟩
      rw [evaluateUpTo, heval, ok_bind]
      dsimp only
      rw [if_pos hstop, hstop]
    · obtain ⟨last, hdefined, hlast⟩ := ih hcs (sawUnknown || decide (v = .unknown))
      refine ⟨last, hdefined, fun unknowns => ?_⟩
      obtain ⟨unknowns', heval⟩ := hc unknowns
      rw [evaluateUpTo, heval, ok_bind]
      dsimp only
      rw [if_neg hstop]
      exact hlast unknowns'

/-- An operator that the validator knows, other than `exists`, gives a definite answer. -/
theorem applyOp_known {op : String} {value : Option JsValue} (hop : knownOps.contains op = true)
    (hexists : op ≠ "exists") (hregex : ¬(op = "matches" ∧ invalidRegex H value = true))
    (fact : JsValue) : ∃ b, applyOp H op fact (value.getD .undefined) = .ok (.known b) := by
  have hcases : op = "matches" ∨ op = "eq" ∨ op = "neq" ∨ op = "in" ∨ op = "lt" ∨ op = "lte" ∨
      op = "gt" ∨ op = "gte" := by
    simp only [knownOps, List.contains_iff_mem, List.mem_cons, List.not_mem_nil, or_false] at hop
    tauto
  rcases hcases with hmatches | hcases
  · obtain ⟨v, hv⟩ := applyOp_ok hregex fact
    rw [hv]
    subst hmatches
    simp only [applyOp] at hv
    split at hv
    · obtain ⟨test, -, hv⟩ := bind_eq_ok.mp hv
      cases hv
      exact ⟨_, rfl⟩
    · cases hv
      exact ⟨_, rfl⟩
  · rcases hcases with rfl | rfl | rfl | rfl | rfl | rfl | rfl
    · exact ⟨_, rfl⟩
    · exact ⟨_, rfl⟩
    · exact ⟨_, rfl⟩
    all_goals
      simp only [applyOp]
      split <;> exact ⟨_, rfl⟩

theorem evaluateCondition_fact {name op : String} {value : Option JsValue} (hop : op ≠ "exists")
    (unknowns : List String) :
    evaluateCondition H (.fact name op value) facts unknowns =
      if (lookupFact facts name).nullish then
        .ok (.unknown, if unknowns.contains name then unknowns else unknowns ++ [name])
      else applyOp H op (lookupFact facts name) (value.getD .undefined) >>= fun v =>
        .ok (v, unknowns) := by
  rw [evaluateCondition, if_neg hop]
  cases lookupFact facts name <;> rfl

/-- The value of a negation; what is not a truth value counts as false. -/
def Tri.negate : Tri → Tri
  | .unknown => .unknown
  | .known b => .known !b
  | .undefined => .known true

/-- What the validator has found about one comparison. -/
theorem Condition.Sound.fact {name op : String} {value : Option JsValue}
    (h : (Condition.fact name op value).Sound H) :
    knownOps.contains op = true ∧ ¬(op = "matches" ∧ invalidRegex H value = true) := by
  have hproblems := h ""
  rw [conditionProblems] at hproblems
  split_ifs at hproblems with hop hregex
  exact ⟨by simpa using hop, hregex⟩

theorem Condition.Sound.of_not (h : (Condition.not c).Sound H) : c.Sound H :=
  Condition.sound_of_problems (h "")

theorem Condition.Evaluates.not {v : Tri} (h : c.Evaluates H facts v) :
    (Condition.not c).Evaluates H facts v.negate := by
  intro unknowns
  obtain ⟨unknowns', heval⟩ := h unknowns
  refine ⟨unknowns', ?_⟩
  rw [evaluateCondition, heval, ok_bind]
  cases v <;> rfl

/-- A condition without problems has a value. -/
theorem Condition.Sound.exists_evaluates (h : c.Sound H) (facts : Facts) :
    ∃ v, v ≠ .undefined ∧ c.Evaluates H facts v := by
  induction c using Condition.ind with
  | all cs ih =>
    obtain ⟨v, hdefined, hv⟩ :=
      exists_evaluateUpTo false (fun c hc => ih c hc (h.mem_all c hc)) false
    refine ⟨v, hdefined, fun unknowns => ?_⟩
    rw [evaluateCondition, evaluateAll_eq]
    exact hv unknowns
  | any cs ih =>
    obtain ⟨v, hdefined, hv⟩ :=
      exists_evaluateUpTo true (fun c hc => ih c hc (h.mem_any c hc)) false
    refine ⟨v, hdefined, fun unknowns => ?_⟩
    rw [evaluateCondition, evaluateAny_eq]
    exact hv unknowns
  | not c ih =>
    obtain ⟨v, hdefined, hv⟩ := ih h.of_not
    refine ⟨_, ?_, hv.not⟩
    cases v <;> simp [Tri.negate]
  | fact name op value =>
    obtain ⟨hop, hregex⟩ := h.fact
    by_cases hexists : op = "exists"
    · refine ⟨_, ?_, fun unknowns => ⟨unknowns, by rw [evaluateCondition, if_pos hexists]⟩⟩
      simp
    · by_cases hmissing : (lookupFact facts name).nullish = true
      · refine ⟨.unknown, by simp, fun unknowns =>
          ⟨if unknowns.contains name then unknowns else unknowns ++ [name], ?_⟩⟩
        rw [evaluateCondition_fact hexists, if_pos hmissing]
      · obtain ⟨b, hb⟩ := applyOp_known hop hexists hregex (lookupFact facts name)
        refine ⟨.known b, by simp, fun unknowns => ⟨unknowns, ?_⟩⟩
        rw [evaluateCondition_fact hexists, if_neg hmissing, hb, ok_bind]
  | null => cases h ""

/-- A condition has one value. -/
theorem Condition.Evaluates.unique {v w : Tri} {unknowns unknowns' : List String}
    (h : c.Evaluates H facts v)
    (heval : evaluateCondition H c facts unknowns = .ok (w, unknowns')) : w = v := by
  obtain ⟨_, hv⟩ := h unknowns
  cases hv.symm.trans heval
  rfl

theorem Condition.Sound.evaluates {v : Tri} {unknowns unknowns' : List String} (h : c.Sound H)
    (heval : evaluateCondition H c facts unknowns = .ok (v, unknowns')) :
    c.Evaluates H facts v := by
  obtain ⟨w, -, hw⟩ := h.exists_evaluates facts
  rw [hw.unique heval]
  exact hw

/-! ## What settles a condition -/

theorem Facts.Extends.refl (facts : Facts) : Facts.Extends facts facts := fun _ _ h _ => h

/-- What is settled stays settled when facts come in. -/
theorem Settled.extend {b : Bool} (h : Settled H facts c b) (hfacts : Facts.Extends facts' facts) :
    Settled H facts' c b := by
  induction h with
  | fact hget hv happly => exact .fact (hfacts _ _ hget hv) hv happly
  | not _ ih => exact .not ih
  | all _ ih => exact .all ih
  | all_false hc _ ih => exact .all_false hc ih
  | any _ ih => exact .any ih
  | any_true hc _ ih => exact .any_true hc ih

theorem lookupFact_of_get {name : String} {v : JsValue} (h : Entries.get facts name = some v) :
    lookupFact facts name = v := by
  rw [lookupFact, h]
  rfl

/-- What is settled is what the condition evaluates to. -/
theorem Settled.evaluates {b : Bool} (h : Settled H facts c b) (hsound : c.Sound H)
    (hfree : c.existsFree = true) : c.Evaluates H facts (.known b) := by
  induction h with
  | fact hget hv happly =>
    intro unknowns
    refine ⟨unknowns, ?_⟩
    rw [evaluateCondition_fact (of_decide_eq_true hfree), lookupFact_of_get hget, hv, happly]
    rfl
  | not _ ih => exact (ih hsound.of_not hfree).not
  | all _ ih =>
    intro unknowns
    rw [evaluateCondition, evaluateAll_eq]
    exact evaluateUpTo_through (fun c hc => ih c hc (hsound.mem_all c hc)
      (existsFreeList_iff.mp hfree c hc)) unknowns
  | all_false hc _ ih =>
    intro unknowns
    rw [evaluateCondition, evaluateAll_eq]
    refine evaluateUpTo_stops (fun c hc => ?_) hc
      (ih (hsound.mem_all _ hc) (existsFreeList_iff.mp hfree _ hc)) unknowns _
    obtain ⟨v, -, hv⟩ := (hsound.mem_all c hc).exists_evaluates _
    exact ⟨v, hv⟩
  | any _ ih =>
    intro unknowns
    rw [evaluateCondition, evaluateAny_eq]
    exact evaluateUpTo_through (fun c hc => ih c hc (hsound.mem_any c hc)
      (existsFreeList_iff.mp hfree c hc)) unknowns
  | any_true hc _ ih =>
    intro unknowns
    rw [evaluateCondition, evaluateAny_eq]
    refine evaluateUpTo_stops (fun c hc => ?_) hc
      (ih (hsound.mem_any _ hc) (existsFreeList_iff.mp hfree _ hc)) unknowns _
    obtain ⟨v, -, hv⟩ := (hsound.mem_any c hc).exists_evaluates _
    exact ⟨v, hv⟩

/-- A map in which every name it only inherits is null. -/
def maskInherited (facts : Facts) : Facts :=
  facts ++ ("__proto__" :: objectMethods).map fun name => (name, JsValue.null)

theorem get_mask (names : List String) (name : String) :
    Entries.get (names.map fun name => (name, JsValue.null)) name =
      if name ∈ names then some JsValue.null else none := by
  induction names with
  | nil => rfl
  | cons n names ih =>
    rw [List.map_cons, Entries.get, ih]
    by_cases hn : n = name
    · simp [hn]
    · simp [hn, Ne.symm hn]

theorem maskInherited_extends (facts : Facts) : Facts.Extends (maskInherited facts) facts := by
  intro name v h _
  rw [maskInherited, Entries.get_append, h]
  rfl

/-- A masked map has no fact that the map does not hold. -/
theorem get_of_mask {name : String} (h : (lookupFact (maskInherited facts) name).nullish = false) :
    Entries.get facts name = some (lookupFact (maskInherited facts) name) := by
  have hget : Entries.get (maskInherited facts) name = (Entries.get facts name).or
      (if name ∈ "__proto__" :: objectMethods then some JsValue.null else none) := by
    rw [maskInherited, Entries.get_append, get_mask]
  rw [lookupFact, hget] at h ⊢
  cases hown : Entries.get facts name with
  | some v => rfl
  | none =>
    rw [hown] at h
    by_cases hname : name ∈ "__proto__" :: objectMethods
    · rw [if_pos hname] at h
      cases h
    · rw [if_neg hname] at h
      rw [List.mem_cons, not_or] at hname
      rw [if_neg hname.1, if_neg (by simpa using hname.2)] at h
      cases h

/-- What a masked map answers is settled by the map itself. -/
theorem settled_of_mask {b : Bool} (hsound : c.Sound H) (hfree : c.existsFree = true)
    (h : c.Evaluates H (maskInherited facts) (.known b)) : Settled H facts c b := by
  induction c using Condition.ind generalizing b with
  | all cs ih =>
    obtain ⟨_, heval⟩ := h []
    rw [evaluateCondition, evaluateAll_eq] at heval
    have hfree' := existsFreeList_iff.mp hfree
    rcases of_evaluateUpTo (fun c hc => (hsound.mem_all c hc).exists_evaluates _) heval with
      ⟨rfl, c, hc, hstop⟩ | ⟨rfl, -, hthrough⟩
    · exact .all_false hc (ih c hc (hsound.mem_all c hc) (hfree' c hc) hstop)
    · exact .all fun c hc => ih c hc (hsound.mem_all c hc) (hfree' c hc) (hthrough c hc)
  | any cs ih =>
    obtain ⟨_, heval⟩ := h []
    rw [evaluateCondition, evaluateAny_eq] at heval
    have hfree' := existsFreeList_iff.mp hfree
    rcases of_evaluateUpTo (fun c hc => (hsound.mem_any c hc).exists_evaluates _) heval with
      ⟨rfl, c, hc, hstop⟩ | ⟨rfl, -, hthrough⟩
    · exact .any_true hc (ih c hc (hsound.mem_any c hc) (hfree' c hc) hstop)
    · exact .any fun c hc => ih c hc (hsound.mem_any c hc) (hfree' c hc) (hthrough c hc)
  | not c ih =>
    obtain ⟨v, hdefined, hv⟩ := hsound.of_not.exists_evaluates (maskInherited facts)
    obtain ⟨_, heval⟩ := h []
    have hnot := hv.not.unique heval
    cases v with
    | known a =>
      cases hnot
      exact .not (ih hsound.of_not hfree hv)
    | unknown => cases hnot
    | undefined => exact absurd rfl hdefined
  | fact name op value =>
    obtain ⟨_, heval⟩ := h []
    rw [evaluateCondition_fact (of_decide_eq_true hfree)] at heval
    by_cases hmissing : (lookupFact (maskInherited facts) name).nullish = true
    · rw [if_pos hmissing] at heval
      cases heval
    · rw [if_neg hmissing] at heval
      obtain ⟨v, hv, heval⟩ := bind_eq_ok.mp heval
      cases heval
      rw [Bool.not_eq_true] at hmissing
      exact .fact (get_of_mask hmissing) hmissing hv
  | null => cases hsound ""

/-- A definite answer of a condition stays, whatever facts come in that were missing or null. -/
def Condition.Stable (H : Host) (facts : Facts) (c : Condition) : Prop :=
  ∀ b, c.Evaluates H facts (.known b) →
    ∀ facts', Facts.Extends facts' facts → c.Evaluates H facts' (.known b)

/-- A definite answer stays exactly where facts that the map holds settle the condition. -/
theorem Condition.Sound.stable_iff (hsound : c.Sound H) (hfree : c.existsFree = true) :
    c.Stable H facts ↔ ∀ b, c.Evaluates H facts (.known b) → Settled H facts c b := by
  constructor
  · intro hstable b h
    exact settled_of_mask hsound hfree (hstable b h _ (maskInherited_extends facts))
  · intro hsettled b h facts' hfacts
    exact ((hsettled b h).extend hfacts).evaluates hsound hfree

end CoolSdk
