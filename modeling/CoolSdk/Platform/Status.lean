import CoolSdk.Core.OrderedMap

/-!
# Check results

The one vocabulary every verifier answers in, and the two folds from the checks of
a report to its headline: the overall status and the outcome. Both are accepting
exactly when every required check is present and passed or did not apply.
-/

namespace CoolSdk

/-- The status of one check. -/
inductive CheckStatus
  /-- Checked, and holds. -/
  | pass
  /-- Checked, and does not hold. -/
  | fail
  /-- Checked, and could not be decided. -/
  | unknown
  /-- Does not apply to this evidence. -/
  | notApplicable
  /-- Not asked for, or a prerequisite failed. -/
  | notChecked
  deriving DecidableEq, Repr

/-- One check of a report. -/
structure Check where
  status : CheckStatus
  /-- Stable, machine-readable reason code. -/
  reason : String
  detail : String
  evidenceRef : Option String := none
  algorithm : Option String := none
  /-- What a pass does not establish. -/
  limitation : Option String := none
  deriving DecidableEq, Repr

/-- A check without further notes. -/
def check (status : CheckStatus) (reason detail : String) : Check := { status, reason, detail }

/-- A required check that does not stand in the way. -/
def Check.accepted (c : Check) : Bool :=
  decide (c.status = .pass) || decide (c.status = .notApplicable)

/-- The checks of a report by name. -/
abbrev Checks := List (String × Check)

/-- The overall status of a report. -/
inductive OverallStatus
  | pass
  | fail
  | unknown
  deriving DecidableEq, Repr

/-- One iteration of `overallOf`. -/
def overallStep (checks : Checks) (acc : OverallStatus × List String) (name : String) :
    OverallStatus × List String :=
  match Entries.get checks name with
  | none => (if acc.1 = .fail then .fail else .unknown, acc.2 ++ [name ++ ": missing"])
  | some c =>
    if c.accepted then acc
    else
      (if c.status = .fail then .fail else if acc.1 = .pass then .unknown else acc.1,
        acc.2 ++ [name ++ ": " ++ c.reason])

/-- Fold required checks into an overall status and the reasons it is not a pass. -/
def overallOf (checks : Checks) (required : List String) : OverallStatus × List String :=
  required.foldl (overallStep checks) (.pass, [])

/-- Every required check is present and accepted. -/
def AllAccepted (checks : Checks) (required : List String) : Prop :=
  ∀ name ∈ required, ∃ c, Entries.get checks name = some c ∧ c.accepted = true

private theorem overallStep_pass {checks : Checks} {acc : OverallStatus × List String}
    {name : String} (h : (overallStep checks acc name).1 = .pass) :
    acc.1 = .pass ∧ ∃ c, Entries.get checks name = some c ∧ c.accepted = true := by
  unfold overallStep at h
  cases hc : Entries.get checks name with
  | none =>
    simp only [hc] at h
    split at h <;> simp at h
  | some c =>
    simp only [hc] at h
    by_cases ha : c.accepted = true
    · simp only [ha, ite_true] at h
      exact ⟨h, c, rfl, ha⟩
    · simp only [ha] at h
      by_cases hf : c.status = .fail
      · simp [hf] at h
      · by_cases hp : acc.1 = .pass
        · simp [hf, hp] at h
        · simp only [hf, hp, Bool.false_eq_true, ite_false] at h

/-- An overall pass means that every required check was accepted. -/
theorem allAccepted_of_overallOf {checks : Checks} {required : List String}
    (h : (overallOf checks required).1 = .pass) : AllAccepted checks required := by
  suffices hs : ∀ acc, (required.foldl (overallStep checks) acc).1 = .pass →
      acc.1 = .pass ∧ AllAccepted checks required from (hs _ h).2
  clear h
  induction required with
  | nil => intro acc h; exact ⟨h, by simp [AllAccepted]⟩
  | cons name required ih =>
    intro acc h
    obtain ⟨hstep, hrest⟩ := ih _ h
    obtain ⟨hacc, hname⟩ := overallStep_pass hstep
    refine ⟨hacc, ?_⟩
    intro n hn
    rcases List.mem_cons.mp hn with rfl | hn
    · exact hname
    · exact hrest n hn

/-- A required check that is there is accepted. -/
theorem AllAccepted.of_get {checks : Checks} {required : List String}
    (h : AllAccepted checks required) (name : String) (hname : name ∈ required) {c : Check}
    (hc : Entries.get checks name = some c) : c.accepted = true := by
  obtain ⟨c', hc', haccepted⟩ := h name hname
  rw [hc] at hc'
  exact Option.some.inj hc' ▸ haccepted

/-- Where every required check is accepted, the overall status is a pass. -/
theorem AllAccepted.overallOf_pass {checks : Checks} {required : List String}
    (h : AllAccepted checks required) : (overallOf checks required).1 = .pass := by
  have hfold : ∀ acc, required.foldl (overallStep checks) acc = acc := by
    induction required with
    | nil => exact fun _ => rfl
    | cons name required ih =>
      intro acc
      obtain ⟨⟨c, hc, haccepted⟩, hrest⟩ := List.forall_mem_cons.mp h
      rw [List.foldl_cons, overallStep, hc]
      simp only [haccepted, if_true]
      exact ih hrest acc
  rw [overallOf, hfold]

/-- The verifier's headline. -/
inductive Outcome
  | verified
  | invalid
  | unsupported
  | stale
  | incomplete
  | indeterminate
  deriving DecidableEq, Repr

/-- Reasons that mean the evidence has aged. -/
def staleReasons : List String :=
  ["attestation_stale", "trust_snapshot_stale", "checkpoint_stale", "trust_bundle_stale",
    "certificate_expired", "collateral_stale", "decision_expired", "request_expired"]

/-- Reasons that mean evidence is missing. -/
def incompleteReasons : List String :=
  ["missing_evidence", "sequence_gap", "no_confirmation", "confirmation_unavailable",
    "incomplete_interval"]

/-- Reasons that mean this verifier does not handle the evidence. -/
def unsupportedReasons : List String :=
  ["unsupported_algorithm", "unsupported_schema", "unsupported_platform",
    "unexpected_critical_field", "unsupported_version"]

/-- What `classifyOutcome` has found so far. -/
structure Found where
  invalid : Bool := false
  unsupported : Bool := false
  stale : Bool := false
  incomplete : Bool := false
  indeterminate : Bool := false
  deriving DecidableEq, Repr

/-- Record one refused check under the kind its reason names. -/
def Found.add (f : Found) (c : Check) : Found :=
  if unsupportedReasons.contains c.reason then { f with unsupported := true }
  else if staleReasons.contains c.reason then { f with stale := true }
  else if incompleteReasons.contains c.reason then { f with incomplete := true }
  else if c.status = .fail then { f with invalid := true }
  else { f with indeterminate := true }

/-- Precedence when several kinds apply. -/
def Found.outcome (f : Found) : Outcome :=
  if f.invalid then .invalid else if f.unsupported then .unsupported
  else if f.stale then .stale else if f.incomplete then .incomplete
  else if f.indeterminate then .indeterminate else .verified

/-- One iteration of `classifyOutcome`. -/
def classifyStep (checks : Checks) (acc : Found × List String) (name : String) :
    Found × List String :=
  match Entries.get checks name with
  | none => ({ acc.1 with indeterminate := true }, acc.2 ++ [name ++ ": missing"])
  | some c =>
    if c.accepted then acc else (acc.1.add c, acc.2 ++ [name ++ ": " ++ c.reason])

/-- Fold required checks into the headline and the reasons behind it. -/
def classifyOutcome (checks : Checks) (required : List String) : Outcome × List String :=
  let acc := required.foldl (classifyStep checks) ({}, [])
  (acc.1.outcome, acc.2)

private theorem found_outcome_verified_iff (f : Found) : f.outcome = .verified ↔ f = {} := by
  rcases f with ⟨a, b, c, d, e⟩
  cases a <;> cases b <;> cases c <;> cases d <;> cases e <;> decide

private theorem found_add_ne (f : Found) (c : Check) : f.add c ≠ {} := by
  unfold Found.add
  split_ifs <;> simp [Found.mk.injEq]

private theorem classifyStep_empty {checks : Checks} {acc : Found × List String} {name : String}
    (h : (classifyStep checks acc name).1 = {}) :
    acc.1 = {} ∧ ∃ c, Entries.get checks name = some c ∧ c.accepted = true := by
  unfold classifyStep at h
  cases hc : Entries.get checks name with
  | none => simp [hc, Found.mk.injEq] at h
  | some c =>
    simp only [hc] at h
    by_cases ha : c.accepted = true
    · simp only [ha, ite_true] at h
      exact ⟨h, c, rfl, ha⟩
    · simp only [ha] at h
      exact (found_add_ne _ _ h).elim

/-- The outcome is `verified` exactly when every required check was accepted. -/
theorem classifyOutcome_verified_iff (checks : Checks) (required : List String) :
    (classifyOutcome checks required).1 = .verified ↔ AllAccepted checks required := by
  have hfold : ∀ acc : Found × List String,
      (required.foldl (classifyStep checks) acc).1 = {} ↔
        acc.1 = {} ∧ AllAccepted checks required := by
    induction required with
    | nil => intro acc; simp [AllAccepted]
    | cons name required ih =>
      intro acc
      rw [List.foldl_cons, ih]
      constructor
      · rintro ⟨hstep, hrest⟩
        obtain ⟨hacc, hname⟩ := classifyStep_empty hstep
        exact ⟨hacc, by simpa only [AllAccepted, List.forall_mem_cons] using ⟨hname, hrest⟩⟩
      · rintro ⟨hacc, hall⟩
        obtain ⟨hname, hrest⟩ := List.forall_mem_cons.mp hall
        obtain ⟨c, hc, ha⟩ := hname
        have hstep : classifyStep checks acc name = acc := by
          simp only [classifyStep, hc, ha, ite_true]
        exact ⟨by rw [hstep]; exact hacc, hrest⟩
  rw [classifyOutcome, found_outcome_verified_iff]
  simpa using hfold ({}, [])

end CoolSdk
