/-!
# Loops that may not end

The runs of a loop that end, as a relation between the state it starts from and the state its
guard fails in. A property the body keeps holds at the end; where the guard follows from one, the
loop does not end.
-/

namespace CoolSdk

universe u

variable {σ : Type u} {guard : σ → Prop} {body : σ → σ}

/-- `while (guard) body`, from a state to the first where the guard fails. -/
inductive WhileLoop (guard : σ → Prop) (body : σ → σ) : σ → σ → Prop
  | exit {s} : ¬guard s → WhileLoop guard body s s
  | again {s t} : guard s → WhileLoop guard body (body s) t → WhileLoop guard body s t

namespace WhileLoop

variable {s t t' : σ}

theorem guard_fails (h : WhileLoop guard body s t) : ¬guard t := by
  induction h with
  | exit hexit => exact hexit
  | again _ _ ih => exact ih

/-- A loop ends in one state at most. -/
theorem unique (h : WhileLoop guard body s t) (h' : WhileLoop guard body s t') : t = t' := by
  induction h with
  | exit hexit =>
    cases h' with
    | exit => rfl
    | again hguard => exact absurd hguard hexit
  | again hguard _ ih =>
    cases h' with
    | exit hexit => exact absurd hguard hexit
    | again _ hrest => exact ih hrest

/-- What the body keeps under the guard holds at the end. -/
theorem invariant {I : σ → Prop} (hbody : ∀ s, I s → guard s → I (body s)) (hs : I s)
    (h : WhileLoop guard body s t) : I t := by
  induction h with
  | exit => exact hs
  | again hguard _ ih => exact ih (hbody _ hs hguard)

/-- Where the guard follows from what the body keeps, the loop does not end. -/
theorem not_of_trap {I : σ → Prop} (hguard : ∀ s, I s → guard s) (hbody : ∀ s, I s → I (body s))
    (hs : I s) : ¬WhileLoop guard body s t := by
  intro h
  exact h.guard_fails (hguard t (h.invariant (fun s hs _ => hbody s hs) hs))

end WhileLoop

end CoolSdk
