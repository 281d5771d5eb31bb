import Mathlib.Data.List.Induction

/-!
# Labelled transition systems

A system is an initial condition and a labelled step relation. The induction from
"holds initially and every step keeps it" to "holds in every reachable state" is
done here once, together with the variant in which each step taken must meet a
condition on the state it leaves and its label.
-/

namespace CoolSdk

universe u v

/-- An initial condition and a labelled step relation. -/
structure TransitionSystem (σ : Type u) (ℓ : Type v) where
  /-- The states a run may start in. -/
  init : σ → Prop
  /-- One labelled step. -/
  step : σ → ℓ → σ → Prop

namespace TransitionSystem

variable {σ : Type u} {ℓ : Type v}

/-- A run every one of whose steps meets a condition on its source and label. -/
inductive RunWhere (S : TransitionSystem σ ℓ) (ok : σ → ℓ → Prop) : σ → Prop
  | start {s} : S.init s → RunWhere S ok s
  | snoc {s l s'} : RunWhere S ok s → ok s l → S.step s l s' → RunWhere S ok s'

/-- The states some run ends in. -/
def Reachable (S : TransitionSystem σ ℓ) (s : σ) : Prop := S.RunWhere (fun _ _ => True) s

/-- A run under one condition is a run under every weaker one. -/
theorem RunWhere.mono {S : TransitionSystem σ ℓ} {ok ok' : σ → ℓ → Prop}
    (hok : ∀ s l, ok s l → ok' s l) {s : σ} (h : S.RunWhere ok s) : S.RunWhere ok' s := by
  induction h with
  | start h => exact .start h
  | snoc _ hs hstep ih => exact .snoc ih (hok _ _ hs) hstep

/-- An inductive invariant holds wherever a conditioned run ends. -/
theorem RunWhere.invariant {S : TransitionSystem σ ℓ} {ok : σ → ℓ → Prop} {I : σ → Prop}
    (hinit : ∀ s, S.init s → I s)
    (hstep : ∀ s l s', I s → ok s l → S.step s l s' → I s') {s : σ}
    (h : S.RunWhere ok s) : I s := by
  induction h with
  | start h => exact hinit _ h
  | snoc _ hok hs ih => exact hstep _ _ _ ih hok hs

/-- An inductive invariant holds in every reachable state. -/
theorem Reachable.invariant {S : TransitionSystem σ ℓ} {I : σ → Prop}
    (hinit : ∀ s, S.init s → I s) (hstep : ∀ s l s', I s → S.step s l s' → I s') {s : σ}
    (h : S.Reachable s) : I s :=
  RunWhere.invariant hinit (fun s l s' hi _ hs => hstep s l s' hi hs) h

/-- Where a system can always step, every list of labels drives a run. -/
theorem reachable_foldl {S : TransitionSystem σ ℓ} {next : σ → ℓ → σ}
    (hstep : ∀ s l, S.step s l (next s l)) {s : σ} (hs : S.init s) (ls : List ℓ) :
    S.Reachable (ls.foldl next s) := by
  induction ls using List.reverseRecOn with
  | nil => exact .start hs
  | append_singleton ls l ih =>
    rw [List.foldl_append]
    exact .snoc ih trivial (hstep _ l)

/-- Where a system steps as a partial function says, every list of labels it admits and that
meets the condition drives a run. -/
theorem RunWhere.foldlM {S : TransitionSystem σ ℓ} {next : σ → ℓ → Option σ} {ok : σ → ℓ → Prop}
    [∀ s l, Decidable (ok s l)] (hstep : ∀ s l s', next s l = some s' → S.step s l s')
    {ls : List ℓ} {s s' : σ} (h : S.RunWhere ok s)
    (hls : ls.foldlM (fun s l => if ok s l then next s l else none) s = some s') :
    S.RunWhere ok s' := by
  induction ls generalizing s with
  | nil =>
    cases hls
    exact h
  | cons l ls ih =>
    rw [List.foldlM_cons, Option.bind_eq_bind, Option.bind_eq_some_iff] at hls
    obtain ⟨t, ht, hls⟩ := hls
    split at ht
    · rename_i hok
      exact ih (.snoc h hok (hstep s l t ht)) hls
    · cases ht

/-- Whether every step that a list of labels takes from a state is admitted. -/
def admitted (next : σ → ℓ → σ) (ok : σ → ℓ → Bool) : σ → List ℓ → Bool
  | _, [] => true
  | s, l :: ls => ok s l && admitted next ok (next s l) ls

/-- Where the steps a function takes are admitted, every list of labels drives a run. -/
theorem RunWhere.foldl {S : TransitionSystem σ ℓ} {next : σ → ℓ → σ} {admits : σ → ℓ → Bool}
    {ok : σ → ℓ → Prop} (hstep : ∀ s l, admits s l = true → ok s l ∧ S.step s l (next s l))
    {ls : List ℓ} {s : σ} (h : S.RunWhere ok s) (hls : admitted next admits s ls = true) :
    S.RunWhere ok (ls.foldl next s) := by
  induction ls generalizing s with
  | nil => exact h
  | cons l ls ih =>
    rw [admitted, Bool.and_eq_true] at hls
    obtain ⟨hok, hs⟩ := hstep s l hls.1
    exact ih (.snoc h hok hs) hls.2

end TransitionSystem

end CoolSdk
