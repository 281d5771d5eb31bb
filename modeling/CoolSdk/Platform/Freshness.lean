import CoolSdk.Authz.ReferenceSigning
import CoolSdk.Platform.Lifecycle

/-!
# Fresh snapshots

A snapshot states how long it may be relied on, and the store keeps the bound when it is truthy.
A bound of zero is lost in the constructor, and a time that does not parse compares as neither
older nor younger: there a stale snapshot yields trust. Everywhere else the age of a snapshot
behind a pass is known and within its bound. What the store exports builds the same store again.
-/

namespace CoolSdk

variable (H : Host)

/-- The age of a snapshot can be told, and a bound of zero is met. -/
structure AgeKnown (s : TrustSnapshot) (maxAge now : JsNumber) : Prop where
  parses : (H.dateParse s.asOf).isSome = true
  clock : now ≠ .nan
  bound : maxAge ≠ .nan
  zero : maxAge.truthy = false → now.le (dateNumber H s.asOf) = true

/-- What relying on a bounded snapshot promises: a pass comes from a snapshot whose age is known
and within the bound, and a store rebuilt from the export answers alike. -/
structure FreshOnly (s : TrustSnapshot) (maxAge : JsNumber) (t : TrustStore) (q : TrustQuery) :
    Prop where
  aged : (t.evaluate H q).status = .pass → (H.dateParse s.asOf).isSome = true ∧
    (q.now.sub (dateNumber H s.asOf)).le maxAge = true
  rebuilt : ∃ t', TrustStore.ofSnapshot t.snapshot = .ok t' ∧
    ∀ q', t'.evaluate H q' = t.evaluate H q'

variable {H}

namespace TrustStore

/-- What a store keeps of its snapshot. -/
theorem ofSnapshot_eq_ok {s : TrustSnapshot} {t : TrustStore} (h : ofSnapshot s = .ok t) :
    t = { id := s.id
          asOf := s.asOf
          maxAgeMs := s.maxAgeMs.filter JsNumber.truthy
          keys := .ofList (s.keys.map fun k => (k.keyId, k)) } := by
  unfold ofSnapshot at h
  split_ifs at h
  exact (Except.ok.inj h).symm

/-- Every record of a store stands under its own id. -/
theorem keyId_of_ofSnapshot {s : TrustSnapshot} {t : TrustStore} (h : ofSnapshot s = .ok t) :
    ∀ e ∈ t.keys.entries, e.1 = e.2.keyId := by
  rw [ofSnapshot_eq_ok h]
  rintro ⟨id, k⟩ he
  obtain ⟨k', _, hk⟩ := List.mem_map.mp (OrderedMap.get_ofList
    (Entries.get_of_mem (OrderedMap.nodup _) he))
  cases hk
  rfl

/-- **The export is faithful**: the store built from it is the store it came from. -/
theorem ofSnapshot_snapshot {s : TrustSnapshot} {t : TrustStore} (h : ofSnapshot s = .ok t) :
    ofSnapshot t.snapshot = .ok t := by
  have hmax : t.maxAgeMs.filter JsNumber.truthy = t.maxAgeMs := by
    rw [ofSnapshot_eq_ok h, Option.filter_filter]
    simp
  have hkeys : t.keys.values.map (fun k => (k.keyId, k)) = t.keys.entries := by
    rw [OrderedMap.values, List.map_map]
    conv_rhs => rw [← List.map_id t.keys.entries]
    apply List.map_congr_left
    intro e he
    exact Prod.ext (keyId_of_ofSnapshot h e he).symm rfl
  have hschema : ¬t.snapshot.schema ≠ "cool.trust-snapshot.v1" := not_not_intro rfl
  rw [ofSnapshot, if_neg hschema]
  apply congrArg Except.ok
  rw [snapshot, hmax, hkeys, OrderedMap.ofList_entries]

end TrustStore

/-- Where a bounded snapshot is found fresh, its age is known and within the bound, exactly if
the age can be told at all. -/
private theorem fresh_iff {s : TrustSnapshot} {t : TrustStore} {maxAge now : JsNumber}
    (hs : TrustStore.ofSnapshot s = .ok t) (hmax : s.maxAgeMs = some maxAge) :
    (t.stale H now = false → (H.dateParse s.asOf).isSome = true ∧
      (now.sub (dateNumber H s.asOf)).le maxAge = true) ↔ AgeKnown H s maxAge now := by
  have hstale : t.stale H now = (maxAge.truthy && maxAge.lt (now.sub (dateNumber H s.asOf))) := by
    rw [TrustStore.stale, TrustStore.ofSnapshot_eq_ok hs, hmax]
    cases htruthy : maxAge.truthy <;> simp [htruthy, dateNumber]
  rw [hstale]
  cases hparse : H.dateParse s.asOf with
  | none =>
    have hnan : dateNumber H s.asOf = .nan := by rw [dateNumber, hparse, JsNumber.ofParsed_none]
    rw [hnan, JsNumber.sub_nan, JsNumber.lt_nan, Bool.and_false]
    constructor
    · intro h
      cases (h rfl).1
    · intro h
      have hparses := h.parses
      rw [hparse] at hparses
      cases hparses
  | some i =>
    have hnum : dateNumber H s.asOf = .ofInt i := by rw [dateNumber, hparse, JsNumber.ofParsed_some]
    rw [hnum]
    constructor
    · intro h
      have hbound : maxAge ≠ .nan := by
        rintro rfl
        have hle := (h rfl).2
        rw [JsNumber.le_nan] at hle
        cases hle
      refine ⟨hparse ▸ rfl, ?_, hbound, ?_⟩
      · rintro rfl
        rw [JsNumber.nan_sub, JsNumber.lt_nan, Bool.and_false, JsNumber.nan_le] at h
        cases (h rfl).2
      · intro hfalsy
        rw [hfalsy, Bool.false_and, JsNumber.sub_le_of_falsy hbound hfalsy] at h
        rw [hnum]
        exact (h rfl).2
    · rintro ⟨_, hclock, hbound, hzero⟩ hfresh
      refine ⟨rfl, ?_⟩
      rw [hnum] at hzero
      cases htruthy : maxAge.truthy with
      | false => rw [JsNumber.sub_le_of_falsy hbound htruthy, hzero htruthy]
      | true =>
        rw [htruthy, Bool.true_and] at hfresh
        exact JsNumber.le_of_not_lt (JsNumber.sub_ofInt_ne_nan hclock i) hbound hfresh

/-- **A bounded snapshot yields no stale trust** exactly where no record accepts the query, or the
age of the snapshot can be told and a bound of zero is met. -/
theorem freshOnly_iff {s : TrustSnapshot} {t : TrustStore} {maxAge : JsNumber}
    (hs : TrustStore.ofSnapshot s = .ok t) (hmax : s.maxAgeMs = some maxAge) (q : TrustQuery) :
    FreshOnly H s maxAge t q ↔
      (∀ k, t.get q.keyId = some k → ¬k.Accepts H q) ∨ AgeKnown H s maxAge q.now := by
  have hrebuilt : ∃ t', TrustStore.ofSnapshot t.snapshot = .ok t' ∧
      ∀ q', t'.evaluate H q' = t.evaluate H q' :=
    ⟨t, TrustStore.ofSnapshot_snapshot hs, fun _ => rfl⟩
  rw [← fresh_iff hs hmax]
  constructor
  · intro h
    by_cases haccepts : ∃ k, t.get q.keyId = some k ∧ k.Accepts H q
    · obtain ⟨k, hk, haccepts⟩ := haccepts
      right
      intro hfresh
      exact h.aged ((t.evaluate_pass_iff_accepts H q).mpr ⟨k, hk, haccepts, hfresh⟩)
    · left
      intro k hk hk'
      exact haccepts ⟨k, hk, hk'⟩
  · rintro (hrefused | hfresh)
    · refine ⟨fun hpass => ?_, hrebuilt⟩
      obtain ⟨k, hk, haccepts, _⟩ := (t.evaluate_pass_iff_accepts H q).mp hpass
      exact (hrefused k hk haccepts).elim
    · refine ⟨fun hpass => ?_, hrebuilt⟩
      obtain ⟨_, _, _, hstale⟩ := (t.evaluate_pass_iff_accepts H q).mp hpass
      exact hfresh hstale

namespace Reference

/-- A snapshot of one evidence key, of the start of 2026 and with the given bound. -/
def boundedSnapshot (maxAge : JsNumber) : TrustSnapshot :=
  { schema := "cool.trust-snapshot.v1"
    id := "snapshot-1"
    asOf := "2026-01-01T00:00:00.000Z"
    maxAgeMs := some maxAge
    keys := [keyRecord (key "producer" "AAAA") [.evidence]] }

/-- The store of that key, with the bound the constructor keeps. -/
def boundedStore (maxAge : JsNumber) : TrustStore :=
  { store [keyRecord (key "producer" "AAAA") [.evidence]] with
    maxAgeMs := (some maxAge).filter JsNumber.truthy }

/-- Whether the key is trusted an hour later. -/
def hourLater : TrustQuery := { keyId := "producer", purpose := .evidence, now := clock 3600000 }

end Reference

open Reference in
theorem freshOnly_iff_bounded :
    FreshOnly host (boundedSnapshot (.ofInt 60000)) (.ofInt 60000) (boundedStore (.ofInt 60000))
        hourLater ↔
      (∀ k, (boundedStore (.ofInt 60000)).get hourLater.keyId = some k →
        ¬k.Accepts host hourLater) ∨
      AgeKnown host (boundedSnapshot (.ofInt 60000)) (.ofInt 60000) hourLater.now :=
  freshOnly_iff rfl rfl hourLater

open Reference in
/-- A snapshot that may not be relied on for any time at all is trusted an hour later. -/
theorem zero_bound_trusts_stale :
    TrustStore.ofSnapshot (boundedSnapshot (.ofInt 0)) = .ok (boundedStore (.ofInt 0)) ∧
      ((boundedStore (.ofInt 0)).evaluate host hourLater).status = .pass ∧
      (hourLater.now.sub (dateNumber host (boundedSnapshot (.ofInt 0)).asOf)).le (.ofInt 0) =
        false := by
  refine ⟨rfl, ?_, ?_⟩
  · decide +kernel
  · decide +kernel

end CoolSdk
