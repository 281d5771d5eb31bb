import CoolSdk.Core.Transition
import Mathlib.Algebra.Order.Group.Multiset
import Mathlib.Data.Multiset.UnionInter
import Mathlib.Tactic.Abel

/-!
# One-shot tokens

A token may be claimed while it is unspent, which spends it, and a held claim may be fired
or dropped. However the steps of any number of parties interleave, no token fires twice. A
system inherits this by showing that each of its steps is one of these.
-/

namespace CoolSdk

universe u v w

/-- The tokens that are spent, the claims held and the claims fired. -/
structure Ledger (κ : Type u) where
  spent : κ → Prop
  held : Multiset κ
  fired : Multiset κ

namespace Ledger

variable {κ : Type u}

/-- What one step may do. -/
inductive Step (L : Ledger κ) : Ledger κ → Prop
  /-- Nothing is claimed or fired. More may be spent, and claims may be dropped. -/
  | rest {spent : κ → Prop} {held : Multiset κ} : (∀ k, L.spent k → spent k) → held ≤ L.held →
      Step L ⟨spent, held, L.fired⟩
  /-- An unspent token is spent and claimed. -/
  | claim {k : κ} {spent : κ → Prop} : ¬L.spent k → (∀ j, L.spent j → spent j) → spent k →
      Step L ⟨spent, k ::ₘ L.held, L.fired⟩
  /-- A held claim is fired. -/
  | fire {k : κ} {held : Multiset κ} : L.held = k ::ₘ held →
      Step L ⟨L.spent, held, k ::ₘ L.fired⟩

/-- No token is claimed or fired more than once in all, and each of those is spent. -/
structure Sound (L : Ledger κ) : Prop where
  once : (L.held + L.fired).Nodup
  covered : ∀ k ∈ L.held + L.fired, L.spent k

/-- A ledger with no claims is sound. -/
theorem sound_empty {L : Ledger κ} (hheld : L.held = 0) (hfired : L.fired = 0) : L.Sound := by
  have hnone : L.held + L.fired = 0 := by rw [hheld, hfired, add_zero]
  refine ⟨?_, ?_⟩
  · rw [hnone]
    exact Multiset.nodup_zero
  · intro k hk
    rw [hnone] at hk
    exact absurd hk (Multiset.notMem_zero k)

/-- Every step keeps a ledger sound. -/
theorem Sound.step {L L' : Ledger κ} (h : L.Sound) (hs : L.Step L') : L'.Sound := by
  cases hs with
  | rest hspent hheld =>
    have hle := add_le_add_left hheld L.fired
    refine ⟨Multiset.nodup_of_le hle h.once, ?_⟩
    intro k hk
    exact hspent k (h.covered k (Multiset.mem_of_le hle hk))
  | claim hk hspent hself =>
    refine ⟨?_, ?_⟩
    · rw [Multiset.cons_add, Multiset.nodup_cons]
      exact ⟨fun hmem => hk (h.covered _ hmem), h.once⟩
    · intro j hj
      rw [Multiset.cons_add, Multiset.mem_cons] at hj
      rcases hj with rfl | hj
      · exact hself
      · exact hspent j (h.covered j hj)
  | @fire k held hheld =>
    have hsame : held + k ::ₘ L.fired = L.held + L.fired := by
      rw [hheld, Multiset.add_cons, Multiset.cons_add]
    refine ⟨?_, ?_⟩
    · rw [hsame]
      exact h.once
    · rw [hsame]
      exact h.covered

/-- A step that leaves the ledger as it is. -/
theorem Step.refl (L : Ledger κ) : L.Step L := .rest (fun _ h => h) le_rfl

/-! ## Claims held by a list of tasks -/

section Tasks

variable {τ : Type v}

/-- The claims of tasks, of which each holds one or none. -/
def claims (claim : τ → Option κ) (tasks : List τ) : Multiset κ := ↑(tasks.filterMap claim)

theorem claims_append (claim : τ → Option κ) (tasks : List τ) (t : τ) :
    claims claim (tasks ++ [t]) = claims claim tasks + ↑(claim t).toList := by
  unfold claims
  rw [List.filterMap_append, Multiset.coe_add]
  cases ht : claim t <;> simp only [List.filterMap_cons, List.filterMap_nil, ht, Option.toList]

/-- Replacing a task gives up its claim for the new one's. -/
theorem claims_set (claim : τ → Option κ) {tasks : List τ} {i : Nat} {t : τ}
    (h : tasks[i]? = some t) (t' : τ) :
    claims claim (tasks.set i t') + ↑(claim t).toList =
      claims claim tasks + ↑(claim t').toList := by
  have hcons : ∀ (x : τ) (l : List τ),
      claims claim (x :: l) = ↑(claim x).toList + claims claim l := by
    intro x l
    unfold claims
    rw [Multiset.coe_add]
    cases hx : claim x <;>
      simp only [List.filterMap_cons, hx, Option.toList, List.nil_append, List.singleton_append]
  induction tasks generalizing i with
  | nil => simp at h
  | cons x tasks ih =>
    cases i with
    | zero =>
      simp only [List.getElem?_cons_zero, Option.some.injEq] at h
      subst h
      rw [List.set_cons_zero, hcons, hcons]
      abel
    | succ i =>
      rw [List.getElem?_cons_succ] at h
      rw [List.set_cons_succ, hcons, hcons, add_assoc, ih h, add_assoc]

/-- Replacing a task by one with the same claim changes no claims. -/
theorem claims_set_eq (claim : τ → Option κ) {tasks : List τ} {i : Nat} {t : τ}
    (h : tasks[i]? = some t) {t' : τ} (ht : claim t' = claim t) :
    claims claim (tasks.set i t') = claims claim tasks := by
  have hset := claims_set claim h t'
  rw [ht] at hset
  exact Multiset.add_left_inj.mp hset

/-- A task that gives its claim up and fires it, if it has one. -/
theorem Step.resume {claim : τ → Option κ} {tasks : List τ} {i : Nat} {t t' : τ}
    {spent : κ → Prop} {fired : List κ} {new : Option κ} (h : tasks[i]? = some t)
    (ht' : claim t' = none) (hnew : new = claim t) :
    Step ⟨spent, claims claim tasks, ↑fired⟩
      ⟨spent, claims claim (tasks.set i t'), ↑(new.toList ++ fired)⟩ := by
  have hset := claims_set claim h t'
  rw [ht', Option.toList_none, Multiset.coe_nil, add_zero] at hset
  subst hnew
  cases hk : claim t with
  | none =>
    rw [hk, Option.toList_none, Multiset.coe_nil, add_zero] at hset
    rw [hset]
    exact .refl _
  | some k =>
    rw [hk, Option.toList_some, Multiset.coe_singleton, Multiset.add_comm,
      Multiset.singleton_add] at hset
    exact .fire hset.symm

end Tasks

/-- A system whose steps are steps of a ledger fires no token twice in any conditioned run. -/
theorem nodup_fired_of_runWhere {σ : Type v} {ℓ : Type w} {S : TransitionSystem σ ℓ}
    {ok : σ → ℓ → Prop} (inv : σ → Prop) (ledger : σ → Ledger κ)
    (hinit : ∀ s, S.init s → inv s ∧ (ledger s).Sound)
    (hstep : ∀ s l s', inv s → ok s l → S.step s l s' → inv s' ∧ (ledger s).Step (ledger s'))
    {s : σ} (h : S.RunWhere ok s) : (ledger s).fired.Nodup := by
  have hsound : inv s ∧ (ledger s).Sound := by
    refine h.invariant hinit ?_
    rintro s l s' ⟨hi, hsound⟩ hok hs
    obtain ⟨hi', hl⟩ := hstep s l s' hi hok hs
    exact ⟨hi', hsound.step hl⟩
  exact (Multiset.nodup_add.mp hsound.2.once).2.1

end Ledger

end CoolSdk
