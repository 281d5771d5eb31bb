import CoolSdk.Platform.Status
import CoolSdk.Wire.Types

/-!
# Execution binding

The workload a request was authorised for, against the workload about to run it.
-/

namespace CoolSdk

/-- A workload as planned or as observed. -/
structure ExecutionContext where
  workloadId : String
  artifactDigest : Multihash
  configDigest : Multihash
  platform : String
  measurement : Option String := none
  environment : Option String := none
  deriving DecidableEq, Repr

instance : ToJs ExecutionContext where
  toJs c := .object [("workload_id", .str c.workloadId),
    ("artifact_digest", .str c.artifactDigest), ("config_digest", .str c.configDigest),
    ("platform", .str c.platform), ("measurement", optional .str c.measurement),
    ("environment", optional .str c.environment)]

/-- The compared fields of a context by name; an absent one is `null`. -/
def executionFields (c : ExecutionContext) : List (String × Option String) :=
  [("workload_id", some c.workloadId), ("artifact_digest", some c.artifactDigest),
    ("config_digest", some c.configDigest), ("platform", some c.platform),
    ("measurement", c.measurement), ("environment", c.environment)]

/-- The names of the fields in which two contexts differ. -/
def executionDiffer (planned observed : ExecutionContext) : List String :=
  ((executionFields planned).zip (executionFields observed)).filterMap fun f =>
    if f.1.2 ≠ f.2.2 then some f.1.1 else none

/-- The first characters of a text. -/
def slice (n : Nat) (text : String) : String := String.ofList (text.toList.take n)

/-- Compare the planned workload with the observed one. -/
def compareExecution (planned observed : Option ExecutionContext) : Check :=
  match planned with
  | none =>
    check .notApplicable "no_planned_execution" "the request did not bind an execution context"
  | some planned =>
    match observed with
    | none => check .unknown "no_observed_execution"
        "the enforcement boundary could not observe the executing workload"
    | some observed =>
      let differ := executionDiffer planned observed
      if differ ≠ [] then
        check .fail "execution_mismatch"
          ("observed workload differs in " ++ ", ".intercalate differ)
      else check .pass "execution_bound" (observed.workloadId ++ " " ++
        slice 22 observed.artifactDigest ++ "… matches the authorised execution")

/-- No field differs exactly when the contexts agree. -/
theorem executionDiffer_eq_nil_iff (planned observed : ExecutionContext) :
    executionDiffer planned observed = [] ↔ planned = observed := by
  rcases planned with ⟨a, b, c, d, e, f⟩
  rcases observed with ⟨a', b', c', d', e', f'⟩
  simp only [executionDiffer, executionFields, List.zip_cons_cons, List.zip_nil_left,
    List.filterMap_eq_nil_iff, List.mem_cons, List.not_mem_nil, or_false, forall_eq_or_imp,
    forall_eq, ite_eq_right_iff, reduceCtorEq, imp_false, ne_eq, not_not, Option.some.injEq,
    ExecutionContext.mk.injEq]

/-- The comparison refuses by failing or by not knowing. -/
theorem compareExecution_accepted {planned observed : Option ExecutionContext}
    (h : ¬((compareExecution planned observed).status = .fail ∨
      (compareExecution planned observed).status = .unknown)) :
    (compareExecution planned observed).accepted = true := by
  cases planned with
  | none => rfl
  | some p =>
    cases observed with
    | none => exact absurd (Or.inr rfl) h
    | some o =>
      by_cases hd : executionDiffer p o = []
      · simp only [compareExecution, hd, ne_eq, not_true_eq_false, if_false, check, Check.accepted,
          decide_true, Bool.true_or]
      · simp only [compareExecution, hd, ne_eq, not_false_eq_true, if_true, check, true_or,
          not_true_eq_false] at h

/-- The comparison stands in the way unless the request binds no workload or the observed one
is the one it binds. -/
theorem compareExecution_accepted_iff (planned observed : Option ExecutionContext) :
    (compareExecution planned observed).accepted = true ↔
      planned = none ∨ planned = observed := by
  cases planned with
  | none => simp [compareExecution, check, Check.accepted]
  | some p =>
    cases observed with
    | none => simp [compareExecution, check, Check.accepted]
    | some o =>
      by_cases hd : executionDiffer p o = []
      · have he := (executionDiffer_eq_nil_iff p o).mp hd
        subst he
        simp [compareExecution, hd, check, Check.accepted]
      · have hne : p ≠ o := fun he => hd ((executionDiffer_eq_nil_iff p o).mpr he)
        simp [compareExecution, hd, check, Check.accepted, hne]

end CoolSdk
