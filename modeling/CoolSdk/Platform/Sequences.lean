import CoolSdk.Phala.ReferencePlane
import CoolSdk.Platform.BundleVerification
import CoolSdk.Platform.Signing
import Mathlib.Data.Set.Finite.Lattice
import Mathlib.Data.Set.Finite.List
import Mathlib.Order.Lattice.Nat

/-!
# Sequence numbers of a bundle

The verifier pools the sequence numbers of all envelopes by epoch and looks for the naturals
missing below the largest. It therefore sees a gap of the pool, and not a signer's own gap that
another signer's number fills, a number given twice, or a number that is no natural.
-/

namespace CoolSdk

namespace JsNumber

theorem ofInt_inj {m k : Int} (h : ofInt m = ofInt k) : m = k := by
  simpa [ofInt] using h

/-- An integer is at most the largest of some numbers where none of them is `NaN` and it is at
most one of them. -/
theorem le_maxOf_iff (numbers : List JsNumber) (m : Int) :
    (ofInt m).le (maxOf numbers) = true ↔
      (∀ x ∈ numbers, x ≠ nan) ∧ ∃ x ∈ numbers, (ofInt m).le x = true := by
  have hfold : ∀ acc, (ofInt m).le (numbers.foldl max acc) = true ↔
      (acc ≠ nan ∧ ∀ x ∈ numbers, x ≠ nan) ∧
        ((ofInt m).le acc = true ∨ ∃ x ∈ numbers, (ofInt m).le x = true) := by
    induction numbers with
    | nil =>
      intro acc
      simp only [List.foldl_nil, List.not_mem_nil, false_implies, implies_true, and_true, false_and,
        exists_false, or_false]
      exact ⟨fun h => ⟨(ne_nan_of_le h).2, h⟩, fun h => h.2⟩
    | cons x numbers ih =>
      intro acc
      rw [List.foldl_cons, ih, ne_eq, max_eq_nan_iff, not_or, List.forall_mem_cons,
        List.exists_mem_cons_iff, ← or_assoc, ← and_assoc (a := acc ≠ nan)]
      refine and_congr_right fun hne => ?_
      rw [le_max_iff hne.1.1 hne.1.2]
  rw [maxOf, hfold]
  simp [le, lt, ofInt, position?]

/-- A loop that ends counts the naturals up to its bound. -/
theorem mem_countedTo {bound : JsNumber} {ns : List Nat} (h : bound.countedTo = some ns) (m : Nat) :
    m ∈ ns ↔ (ofInt m).le bound = true := by
  cases bound with
  | nan | negInfinity =>
    cases h
    simp [le, lt, ofInt, position?]
  | negZero =>
    cases h
    simp [le, lt, ofInt, position?]
  | infinity => cases h
  | finite q =>
    have hle : (ofInt m).le (finite q) = decide ((m : ℚ) ≤ q) := by
      simp [le, lt, ofInt, position?, ← not_lt]
    rw [hle, decide_eq_true_eq]
    have h' : (if q < 0 then some [] else if 2 ^ 53 ≤ q then none
        else some (List.range (q.floor.toNat + 1))) = some ns := h
    split_ifs at h' with hneg hlarge
    · cases h'
      have hm : (0 : ℚ) ≤ m := Nat.cast_nonneg m
      simp only [List.not_mem_nil, false_iff, not_le]
      exact hneg.trans_le hm
    · cases h'
      have hfloor : 0 ≤ q.floor := Rat.le_floor_iff.mpr (by simpa using hneg)
      have hcast : ((m : Int) : ℚ) = m := Int.cast_natCast m
      rw [List.mem_range, Nat.lt_succ_iff, ← hcast, ← Rat.le_floor_iff]
      omega

end JsNumber

/-- The epoch and the number of a sequenced envelope, as the keys of a map and of a set. -/
def SignedEnvelope.place (e : SignedEnvelope) : Option (JsNumber × JsNumber) :=
  e.core.sequence.map fun s => (s.epoch.mapKey, s.number.mapKey)

section

variable {H : Host} {envelopes : List SignedEnvelope}

/-- The pool of an epoch holds the numbers of its envelopes. -/
private theorem mem_foldl_addSequence (envelopes : List SignedEnvelope) (epoch x : JsNumber)
    (acc : OrderedMap JsNumber (List JsNumber)) :
    x ∈ ((envelopes.foldl addSequence acc).get epoch).getD [] ↔
      x ∈ (acc.get epoch).getD [] ∨ ∃ e ∈ envelopes, ∃ s, e.core.sequence = some s ∧
        s.epoch.mapKey = epoch ∧ s.number = x := by
  induction envelopes generalizing acc with
  | nil => simp
  | cons e envelopes ih =>
    rw [List.foldl_cons, ih, List.exists_mem_cons_iff, ← or_assoc]
    apply or_congr_left
    unfold addSequence
    cases hs : e.core.sequence with
    | none => simp
    | some s =>
      rw [OrderedMap.get_set]
      by_cases he : s.epoch.mapKey = epoch
      · subst he
        simp [eq_comm]
      · simp [he]

private theorem get_foldl_addSequence (epoch : JsNumber)
    (acc : OrderedMap JsNumber (List JsNumber)) :
    ((envelopes.foldl addSequence acc).get epoch).isSome = true ↔
      (acc.get epoch).isSome = true ∨ ∃ e ∈ envelopes, ∃ s, e.core.sequence = some s ∧
        s.epoch.mapKey = epoch := by
  induction envelopes generalizing acc with
  | nil => simp
  | cons e envelopes ih =>
    rw [List.foldl_cons, ih, List.exists_mem_cons_iff, ← or_assoc]
    apply or_congr_left
    unfold addSequence
    cases hs : e.core.sequence with
    | none => simp
    | some s =>
      rw [OrderedMap.get_set]
      by_cases he : s.epoch.mapKey = epoch
      · subst he
        simp
      · simp [he]

/-- What the pool lists under an epoch. -/
theorem mem_sequencesByEpoch {epoch : JsNumber} {numbers : List JsNumber}
    (h : (epoch, numbers) ∈ (sequencesByEpoch envelopes).entries) (x : JsNumber) :
    x ∈ numbers.map JsNumber.mapKey ↔ ∃ e ∈ envelopes, e.place = some (epoch, x) := by
  have hget : (sequencesByEpoch envelopes).get epoch = some numbers :=
    Entries.get_of_mem (sequencesByEpoch envelopes).nodup h
  have hmem := fun y => mem_foldl_addSequence envelopes epoch y .empty
  rw [← sequencesByEpoch, hget] at hmem
  simp only [Option.getD_some, OrderedMap.get_empty, Option.getD_none, List.not_mem_nil,
    false_or] at hmem
  simp only [List.mem_map, hmem, SignedEnvelope.place, Option.map_eq_some_iff, Prod.mk.injEq]
  constructor
  · rintro ⟨y, ⟨e, he, s, hs, hepoch, rfl⟩, rfl⟩
    exact ⟨e, he, s, hs, hepoch, rfl⟩
  · rintro ⟨e, he, s, hs, hepoch, rfl⟩
    exact ⟨s.number, ⟨e, he, s, hs, hepoch, rfl⟩, rfl⟩

/-- The epochs of the pool are those of its envelopes. -/
theorem exists_mem_sequencesByEpoch {e : SignedEnvelope} {epoch n : JsNumber}
    (he : e ∈ envelopes) (hplace : e.place = some (epoch, n)) :
    ∃ numbers, (epoch, numbers) ∈ (sequencesByEpoch envelopes).entries := by
  obtain ⟨s, hs, hsn⟩ := Option.map_eq_some_iff.mp hplace
  have hsome : ((sequencesByEpoch envelopes).get epoch).isSome = true :=
    (get_foldl_addSequence epoch .empty).mpr (.inr ⟨e, he, s, hs, (Prod.mk.inj hsn).1⟩)
  obtain ⟨numbers, hnumbers⟩ := Option.isSome_iff_exists.mp hsome
  exact ⟨numbers, OrderedMap.mem_of_get hnumbers⟩

/-- What some lists, each computed of an element, hold together is nothing where each is empty. -/
private theorem flatten_eq_nil_of_mapM {α β : Type} {f : α → Option (List β)} {l : List α}
    {ls : List (List β)} (h : l.mapM f = some ls) :
    ls.flatten = [] ↔ ∀ a ∈ l, f a = some [] := by
  induction l generalizing ls with
  | nil =>
    cases h
    simp
  | cons a l ih =>
    rw [List.mapM_cons, Option.bind_eq_bind, Option.bind_eq_some_iff] at h
    obtain ⟨b, hb, h⟩ := h
    rw [Option.bind_eq_bind, Option.bind_eq_some_iff] at h
    obtain ⟨bs, hbs, h⟩ := h
    cases h
    rw [List.flatten_cons, List.append_eq_nil_iff, ih hbs, List.forall_mem_cons, hb,
      Option.some.injEq]

private theorem exists_of_mapM {α β : Type} {f : α → Option β} {l : List α} {bs : List β}
    (h : l.mapM f = some bs) {a : α} (ha : a ∈ l) : ∃ b, f a = some b := by
  induction l generalizing bs with
  | nil => cases ha
  | cons a' l ih =>
    rw [List.mapM_cons, Option.bind_eq_bind, Option.bind_eq_some_iff] at h
    obtain ⟨b, hb, h⟩ := h
    rw [Option.bind_eq_bind, Option.bind_eq_some_iff] at h
    obtain ⟨bs, hbs, h⟩ := h
    cases h
    rcases List.mem_cons.mp ha with rfl | ha
    · exact ⟨b, hb⟩
    · exact ih hbs ha

/-- A pool is without gaps where it holds a `NaN` or every natural up to its numbers. -/
private theorem missingNumbers_eq_nil {numbers : List JsNumber} {ms : List Nat}
    (h : missingNumbers numbers = some ms) :
    ms = [] ↔ ∀ m : Nat, (∀ x ∈ numbers.map JsNumber.mapKey, x ≠ .nan) →
      (∃ x ∈ numbers.map JsNumber.mapKey, (JsNumber.ofInt m).le x = true) →
      JsNumber.ofInt m ∈ numbers.map JsNumber.mapKey := by
  obtain ⟨ns, hns, rfl⟩ := Option.map_eq_some_iff.mp h
  have hnan : ∀ x : JsNumber, x.mapKey ≠ .nan ↔ x ≠ .nan := by
    intro x
    cases x <;> simp [JsNumber.mapKey]
  have hle : ∀ (m : Nat) (x : JsNumber),
      (JsNumber.ofInt m).le x.mapKey = (JsNumber.ofInt m).le x := by
    intro m x
    cases x <;> rfl
  have hsome : ∀ m : Nat, (∃ x ∈ numbers.map JsNumber.mapKey, (JsNumber.ofInt m).le x = true) ↔
      ∃ x ∈ numbers, (JsNumber.ofInt m).le x = true := by
    intro m
    simp only [List.mem_map, exists_exists_and_eq_and, hle]
  have hkey : ∀ m : Nat, (JsNumber.ofInt m).mapKey = .ofInt m := fun _ => rfl
  simp only [List.filter_eq_nil_iff, JsNumber.mem_countedTo hns, JsNumber.le_maxOf_iff,
    List.forall_mem_map, hsome, hnan, hkey, Bool.not_eq_true, Bool.not_eq_false',
    List.contains_eq_mem, decide_eq_true_eq, and_imp]

variable {b : EvidenceBundle}

/-- Some epoch lacks a natural below one of its numbers, and no number of it is `NaN`. -/
def PooledGap (b : EvidenceBundle) : Prop :=
  ∃ epoch, ∃ e ∈ b.envelopes, ∃ n, e.place = some (epoch, n) ∧
    ∃ m : Nat, (JsNumber.ofInt m).le n = true ∧
      ∀ e' ∈ b.envelopes, ∀ n', e'.place = some (epoch, n') → n' ≠ .nan ∧ n' ≠ .ofInt m

/-- The pool of an epoch is without gaps where the epoch of the bundle is. -/
private theorem noGaps_iff {gaps : List String}
    (h : sequenceGaps H (sequencesByEpoch b.envelopes) = some gaps) :
    gaps = [] ↔ ¬PooledGap b := by
  obtain ⟨lists, hlists, rfl⟩ := Option.map_eq_some_iff.mp h
  rw [flatten_eq_nil_of_mapM hlists]
  constructor
  · rintro hall ⟨epoch, e, he, n, hplace, m, hle, hlacks⟩
    obtain ⟨numbers, hentry⟩ := exists_mem_sequencesByEpoch he hplace
    have hmem := mem_sequencesByEpoch hentry
    obtain ⟨ms, hms, htexts⟩ := Option.map_eq_some_iff.mp (hall _ hentry)
    rw [List.map_eq_nil_iff] at htexts
    have hfilled := (missingNumbers_eq_nil hms).mp htexts m
      (fun x hx => by
        obtain ⟨e', he', hplace'⟩ := (hmem x).mp hx
        exact (hlacks e' he' x hplace').1)
      ⟨n, (hmem n).mpr ⟨e, he, hplace⟩, hle⟩
    obtain ⟨e', he', hplace'⟩ := (hmem _).mp hfilled
    exact (hlacks e' he' _ hplace').2 rfl
  · rintro hnone ⟨epoch, numbers⟩ hentry
    have hmem := mem_sequencesByEpoch hentry
    obtain ⟨texts, htexts⟩ := exists_of_mapM hlists hentry
    obtain ⟨ms, hms, rfl⟩ := Option.map_eq_some_iff.mp htexts
    have hnil : ms = [] := by
      rw [missingNumbers_eq_nil hms]
      rintro m hnan ⟨n, hn, hle⟩
      by_contra hlacks
      obtain ⟨e, he, hplace⟩ := (hmem n).mp hn
      refine hnone ⟨epoch, e, he, n, hplace, m, hle, fun e' he' n' hplace' => ?_⟩
      have hn' := (hmem n').mpr ⟨e', he', hplace'⟩
      exact ⟨hnan n' hn', fun heq => hlacks (heq ▸ hn')⟩
    rw [htexts, hnil, List.map_nil]

/-- The check of a bundle's sequences passes where some envelope is sequenced and no epoch has a
gap. -/
theorem sequenceCheck_pass_iff {c : Check} (h : sequenceCheck H b.envelopes = some c) :
    c.status = .pass ↔ (∃ e ∈ b.envelopes, ∃ p, e.place = some p) ∧ ¬PooledGap b := by
  obtain ⟨gaps, hgaps, rfl⟩ := Option.map_eq_some_iff.mp h
  rw [← noGaps_iff hgaps]
  by_cases hnone : (sequencesByEpoch b.envelopes).entries = []
  · rw [if_pos hnone]
    simp only [check, reduceCtorEq, false_iff, not_and]
    rintro ⟨e, he, ⟨epoch, n⟩, hplace⟩
    obtain ⟨numbers, hentry⟩ := exists_mem_sequencesByEpoch he hplace
    rw [hnone] at hentry
    cases hentry
  · rw [if_neg hnone]
    obtain ⟨⟨epoch, numbers⟩, hentry⟩ := List.exists_mem_of_ne_nil _ hnone
    have hsome : ∃ e ∈ b.envelopes, ∃ p, e.place = some p := by
      have hget := Entries.get_of_mem (sequencesByEpoch b.envelopes).nodup hentry
      have hpool : ((sequencesByEpoch b.envelopes).get epoch).isSome = true :=
        Option.isSome_iff_exists.mpr ⟨numbers, hget⟩
      rcases (get_foldl_addSequence epoch .empty).mp hpool with hempty | ⟨e, he, s, hs, _⟩
      · cases hempty
      · exact ⟨e, he, _, Option.map_eq_some_iff.mpr ⟨s, hs, rfl⟩⟩
    by_cases hempty : gaps = []
    · rw [if_neg (not_not_intro hempty)]
      exact ⟨fun _ => ⟨hsome, hempty⟩, fun _ => rfl⟩
    · rw [if_pos hempty]
      simp only [check, reduceCtorEq, false_iff, not_and]
      exact fun _ => hempty

/-! ## The histories of the signers -/

/-- A signer gives an envelope of the bundle a number in an epoch. -/
structure Issues (b : EvidenceBundle) (signer : String) (epoch n : JsNumber) (e : SignedEnvelope) :
    Prop where
  mem : e ∈ b.envelopes
  signed : signer ∈ e.signatures.map SignatureBlock.keyId
  place : e.place = some (epoch, n)

/-- A signer's numbers in an epoch are the naturals up to some last one, each on one digest. -/
def Contiguous (b : EvidenceBundle) (signer : String) (epoch : JsNumber) : Prop :=
  ∃ last : Nat, (∀ n e, Issues b signer epoch n e → ∃ m ≤ last, n = .ofInt (m : Nat)) ∧
    ∀ m ≤ last, ∃! digest, ∃ e, Issues b signer epoch (.ofInt (m : Nat)) e ∧ e.digest = digest

/-- Every signer's numbers in every epoch it numbers are contiguous. -/
def SequencesComplete (b : EvidenceBundle) : Prop :=
  ∀ signer epoch, (∃ n e, Issues b signer epoch n e) → Contiguous b signer epoch

/-- The numbers tell the signers' histories: they are naturals, no signer gives one twice, and
what a signer leaves out below a number of its own is not made up for by another's number or
hidden by a `NaN` in the epoch. -/
structure Telling (b : EvidenceBundle) : Prop where
  naturals : ∀ signer epoch n e, Issues b signer epoch n e → ∃ m : Nat, n = .ofInt m
  once : ∀ signer epoch n e e', Issues b signer epoch n e → Issues b signer epoch n e' →
    e.digest = e'.digest
  unmasked : ∀ signer epoch (m k : Nat) e, Issues b signer epoch (.ofInt k) e → m < k →
    (∀ e', ¬Issues b signer epoch (.ofInt m) e') → ∀ e' ∈ b.envelopes, ∀ n',
      e'.place = some (epoch, n') → n' ≠ .nan ∧ n' ≠ .ofInt m

/-- The natural that an envelope is numbered with, if it is one. -/
private def naturalOf (e : SignedEnvelope) : Nat :=
  match e.place with
  | some (_, .finite q) => q.num.toNat
  | _ => 0

/-- A signer that gives some natural gives a largest one. -/
private theorem exists_last {signer : String} {epoch : JsNumber}
    (h : ∃ (m : Nat) (e : SignedEnvelope), Issues b signer epoch (.ofInt m) e) :
    ∃ last : Nat, (∃ e, Issues b signer epoch (.ofInt last) e) ∧
      ∀ (m : Nat) e, Issues b signer epoch (.ofInt m) e → m ≤ last := by
  have hsize : ∀ (m : Nat) e, Issues b signer epoch (.ofInt m) e → naturalOf e = m := by
    intro m e he
    simp [naturalOf, he.place, JsNumber.ofInt]
  have hbounded : BddAbove {m : Nat | ∃ e, Issues b signer epoch (.ofInt m) e} := by
    apply ((List.finite_toSet b.envelopes).image naturalOf).bddAbove.mono
    rintro m ⟨e, he⟩
    exact ⟨e, he.mem, hsize m e he⟩
  exact ⟨_, Nat.sSup_mem h hbounded, fun m e he => le_csSup hbounded ⟨e, he⟩⟩

/-- Where the pool has no gap, the histories are complete exactly where the numbers tell them. -/
theorem sequencesComplete_iff (hpool : ¬PooledGap b) : SequencesComplete b ↔ Telling b := by
  constructor
  · intro h
    refine ⟨?_, ?_, ?_⟩
    · intro signer epoch n e he
      obtain ⟨last, hnaturals, _⟩ := h signer epoch ⟨n, e, he⟩
      obtain ⟨m, _, hm⟩ := hnaturals n e he
      exact ⟨m, hm⟩
    · intro signer epoch n e e' he he'
      obtain ⟨last, hnaturals, honce⟩ := h signer epoch ⟨n, e, he⟩
      obtain ⟨m, hm, rfl⟩ := hnaturals n e he
      exact (honce m hm).unique ⟨e, he, rfl⟩ ⟨e', he', rfl⟩
    · intro signer epoch m k e he hlt hnone
      obtain ⟨last, hnaturals, honce⟩ := h signer epoch ⟨_, e, he⟩
      obtain ⟨k', hk', heq⟩ := hnaturals _ e he
      have hsame : (k : Int) = k' := JsNumber.ofInt_inj heq
      obtain ⟨_, ⟨e', he', _⟩, _⟩ := honce m (by omega)
      exact (hnone e' he').elim
  · rintro h signer epoch ⟨n, e, he⟩
    obtain ⟨first, rfl⟩ := h.naturals signer epoch n e he
    obtain ⟨last, ⟨elast, helast⟩, hlast⟩ := exists_last ⟨first, e, he⟩
    refine ⟨last, ?_, ?_⟩
    · intro n e he
      obtain ⟨m, rfl⟩ := h.naturals signer epoch n e he
      exact ⟨m, hlast m e he, rfl⟩
    · intro m hm
      obtain ⟨e, he⟩ : ∃ e, Issues b signer epoch (.ofInt m) e := by
        by_contra hnone
        rw [not_exists] at hnone
        have hlt : m < last := by
          refine hm.lt_of_ne ?_
          rintro rfl
          exact hnone elast helast
        -- a number the signer lacks and nobody makes up for is a gap of the pool
        refine hpool ⟨epoch, elast, helast.mem, _, helast.place, m, ?_, ?_⟩
        · rw [JsNumber.le_ofInt, decide_eq_true_eq]
          omega
        · exact h.unmasked signer epoch m last elast helast hlt hnone
      refine ⟨e.digest, ⟨e, he, rfl⟩, ?_⟩
      rintro digest ⟨e', he', rfl⟩
      exact h.once signer epoch _ e' e he' he

/-- The sequence check behind a report. -/
theorem sequence_of_verifyBundle {o : VerifyBundleOptions} {report : BundleReport}
    (h : verifyBundle H b o = .ok (some report)) :
    ∃ c, sequenceCheck H b.envelopes = some c ∧
      (report.Passes "sequence_complete" ↔ c.status = .pass) := by
  obtain ⟨s, hran, hchecks⟩ := sections_of_verifyBundle h
  refine ⟨s.sequence, hran.sequence, ?_⟩
  simp [BundleReport.Passes, hchecks, BundleSections.checks, Entries.get]

/-- **A passing sequence check means complete histories** exactly where the pool has a gap, so
that it does not pass, or the numbers tell every signer's history. -/
theorem sequence_complete_iff {o : VerifyBundleOptions} {report : BundleReport}
    (h : verifyBundle H b o = .ok (some report)) :
    (report.Passes "sequence_complete" → SequencesComplete b) ↔ PooledGap b ∨ Telling b := by
  obtain ⟨c, hc, hpass⟩ := sequence_of_verifyBundle h
  rw [hpass, sequenceCheck_pass_iff hc]
  by_cases hpool : PooledGap b
  · simp [hpool]
  · rw [← sequencesComplete_iff hpool]
    simp only [hpool, not_false_eq_true, and_true, false_or]
    constructor
    · intro h signer epoch hissues
      obtain ⟨n, e, he⟩ := hissues
      exact h ⟨e, he.mem, _, he.place⟩ signer epoch ⟨n, e, he⟩
    · exact fun h _ => h

end

/-! ## Two sources in one epoch -/

namespace Reference

/-- The key of a second source. -/
def otherKey : KeyPair := key "source-2" "BBBB"

/-- The commit as an event of a sequenced source. -/
def numberedCore (source : KeyPair) (number : Int) : EnvelopeCore :=
  { commitCore with
    eventId := "evt-" ++ source.keyId ++ "-" ++ toString number
    sequence := some { epoch := .ofInt 0, number := .ofInt number } }

/-- The event signed by its source. -/
def numberedCommit (source : KeyPair) (number : Int) : SignedEnvelope :=
  match signEnvelope totalHost (numberedCore source number) [localSigner totalHost source] none with
  | .ok env => env
  | .error _ => commitEnvelope source

/-- What the numbered event was signed as. -/
theorem signedBy_numberedCommit (source : KeyPair) (number : Int) :
    ∃ bytes message, (numberedCommit source number).SignedBy totalHost
        (numberedCore source number) [localSigner totalHost source] bytes message ∧
      (numberedCommit source number).checkpoint = none ∧
      (numberedCommit source number).attestation = none := by
  have hsha : ∀ data, (totalHost.sha256 data).length = 32 := length_digest
  have hencodes : ∀ v, ∃ bytes, totalHost.canonicalCbor v = .ok bytes := fun _ => ⟨_, rfl⟩
  have hcore : ∃ bytes, canonicalize totalHost (numberedCore source number) = .ok bytes :=
    hencodes (toJs (numberedCore source number))
  obtain ⟨bytes, hbytes⟩ := hcore
  obtain ⟨env, message, henv, hsigned⟩ := exists_signEnvelope hsha hbytes
    (List.cons_ne_nil (localSigner totalHost source) [])
  have heq : numberedCommit source number = env := by
    rw [numberedCommit, henv]
  rw [heq]
  exact ⟨bytes, message, hsigned⟩

theorem place_numberedCommit (source : KeyPair) (number : Int) :
    (numberedCommit source number).place = some (.ofInt 0, .ofInt number) := by
  obtain ⟨bytes, message, hsigned, _⟩ := signedBy_numberedCommit source number
  rw [SignedEnvelope.place, hsigned.core]
  rfl

theorem signers_numberedCommit (source : KeyPair) (number : Int) :
    (numberedCommit source number).signatures.map SignatureBlock.keyId = [source.keyId] := by
  obtain ⟨bytes, message, hsigned, _⟩ := signedBy_numberedCommit source number
  rw [hsigned.signatures]
  rfl

/-- What a bundle of two numbered events says of its signers. -/
theorem issues_pair {k k' : KeyPair} {i i' : Int} {signer : String} {epoch n : JsNumber}
    {e : SignedEnvelope} :
    Issues (bundleOf [numberedCommit k i, numberedCommit k' i']) signer epoch n e ↔
      epoch = .ofInt 0 ∧
        (signer = k.keyId ∧ n = .ofInt i ∧ e = numberedCommit k i ∨
          signer = k'.keyId ∧ n = .ofInt i' ∧ e = numberedCommit k' i') := by
  constructor
  · rintro ⟨hmem, hsigned, hplace⟩
    rcases List.mem_pair.mp hmem with he | he
    · rw [he, signers_numberedCommit, List.mem_singleton] at hsigned
      rw [he, place_numberedCommit] at hplace
      cases hplace
      exact ⟨rfl, .inl ⟨hsigned, rfl, he⟩⟩
    · rw [he, signers_numberedCommit, List.mem_singleton] at hsigned
      rw [he, place_numberedCommit] at hplace
      cases hplace
      exact ⟨rfl, .inr ⟨hsigned, rfl, he⟩⟩
  · rintro ⟨rfl, ⟨rfl, rfl, he⟩ | ⟨rfl, rfl, he⟩⟩
    · refine ⟨List.mem_pair.mpr (.inl he), ?_, ?_⟩
      · rw [he, signers_numberedCommit]
        exact List.mem_singleton_self _
      · rw [he, place_numberedCommit]
    · refine ⟨List.mem_pair.mpr (.inr he), ?_, ?_⟩
      · rw [he, signers_numberedCommit]
        exact List.mem_singleton_self _
      · rw [he, place_numberedCommit]

/-- The pool of two numbered events lists both numbers. -/
theorem sequencesByEpoch_pair (k k' : KeyPair) (i i' : Int) :
    (sequencesByEpoch [numberedCommit k i, numberedCommit k' i']).entries =
      [(.ofInt 0, [.ofInt i, .ofInt i'])] := by
  obtain ⟨_, _, hsigned, _⟩ := signedBy_numberedCommit k i
  obtain ⟨_, _, hsigned', _⟩ := signedBy_numberedCommit k' i'
  simp only [sequencesByEpoch, List.foldl_cons, List.foldl_nil, addSequence, hsigned.core,
    hsigned'.core]
  rfl

/-- The verifier passes the pool of two events that no number is missing in. -/
theorem passes_pair {k k' : KeyPair} {i i' : Int}
    (hgaps : sequenceGaps totalHost (sequencesByEpoch [numberedCommit k i, numberedCommit k' i']) =
      some []) :
    ∃ report, verifyBundle totalHost (bundleOf [numberedCommit k i, numberedCommit k' i'])
        (bundleOptions [keyRecord sourceKey [.evidence], keyRecord otherKey [.evidence]]) =
          .ok (some report) ∧
      report.Passes "sequence_complete" := by
  have hcheck : ∃ c, sequenceCheck totalHost [numberedCommit k i, numberedCommit k' i'] = some c ∧
      c.status = .pass := by
    rw [sequenceCheck]
    simp only [hgaps, Option.map_some, sequencesByEpoch_pair, List.cons_ne_nil, ne_eq,
      not_true_eq_false, if_false]
    exact ⟨_, rfl, rfl⟩
  obtain ⟨c, hc, hpass⟩ := hcheck
  have hbare : ∀ e ∈ [numberedCommit k i, numberedCommit k' i'],
      e.checkpoint = none ∧ e.attestation = none := by
    intro e he
    rcases List.mem_pair.mp he with he | he
    · obtain ⟨_, _, _, hbare⟩ := signedBy_numberedCommit k i
      rwa [he]
    · obtain ⟨_, _, _, hbare⟩ := signedBy_numberedCommit k' i'
      rwa [he]
  obtain ⟨report, hreport⟩ := exists_report_bundleOf hbare (by rw [hc]; rfl)
    [keyRecord sourceKey [.evidence], keyRecord otherKey [.evidence]]
  obtain ⟨c', hc', hpasses⟩ := sequence_of_verifyBundle hreport
  have hsame : some c = some c' := hc.symm.trans hc'
  cases hsame
  exact ⟨report, hreport, hpasses.mpr hpass⟩

end Reference

open Reference in
/-- A source's first two numbers are a complete history. -/
theorem sequence_complete_iff_whole :
    ∃ report, verifyBundle totalHost (bundleOf [numberedCommit sourceKey 0,
        numberedCommit sourceKey 1])
        (bundleOptions [keyRecord sourceKey [.evidence], keyRecord otherKey [.evidence]]) =
          .ok (some report) ∧
      report.Passes "sequence_complete" ∧
      SequencesComplete (bundleOf [numberedCommit sourceKey 0, numberedCommit sourceKey 1]) := by
  have hgaps : sequenceGaps totalHost (sequencesByEpoch [numberedCommit sourceKey 0,
      numberedCommit sourceKey 1]) = some [] := by
    rw [sequenceGaps, sequencesByEpoch_pair]
    decide
  obtain ⟨report, hreport, hpass⟩ := passes_pair hgaps
  refine ⟨report, hreport, hpass, (sequence_complete_iff hreport).mpr (.inr ?_) hpass⟩
  refine ⟨?_, ?_, ?_⟩
  · intro signer epoch n e he
    obtain ⟨_, ⟨_, hn, _⟩ | ⟨_, hn, _⟩⟩ := issues_pair.mp he
    · exact ⟨0, hn⟩
    · exact ⟨1, hn⟩
  · intro signer epoch n e e' he he'
    obtain ⟨_, ⟨_, hn, h⟩ | ⟨_, hn, h⟩⟩ := issues_pair.mp he <;>
      obtain ⟨_, ⟨_, hn', h'⟩ | ⟨_, hn', h'⟩⟩ := issues_pair.mp he'
    · rw [h, h']
    · rw [hn] at hn'
      cases hn'
    · rw [hn] at hn'
      cases hn'
    · rw [h, h']
  · intro signer epoch m k e he hlt hnone
    obtain ⟨hepoch, ⟨_, hk, _⟩ | ⟨hsigner, hk, _⟩⟩ := issues_pair.mp he
    · have hk := JsNumber.ofInt_inj hk
      omega
    · have hk := JsNumber.ofInt_inj hk
      obtain rfl : m = 0 := by omega
      exact (hnone _ (issues_pair.mpr ⟨hepoch, .inl ⟨hsigner, rfl, rfl⟩⟩)).elim

open Reference in
/-- The receipt a source leaves out is made up for by another source's number. -/
theorem masked_gap_passes :
    ∃ report, verifyBundle totalHost (bundleOf [numberedCommit sourceKey 1,
        numberedCommit otherKey 0])
        (bundleOptions [keyRecord sourceKey [.evidence], keyRecord otherKey [.evidence]]) =
          .ok (some report) ∧
      report.Passes "sequence_complete" ∧
      ¬SequencesComplete (bundleOf [numberedCommit sourceKey 1, numberedCommit otherKey 0]) := by
  have hgaps : sequenceGaps totalHost (sequencesByEpoch [numberedCommit sourceKey 1,
      numberedCommit otherKey 0]) = some [] := by
    rw [sequenceGaps, sequencesByEpoch_pair]
    decide
  obtain ⟨report, hreport, hpass⟩ := passes_pair hgaps
  refine ⟨report, hreport, hpass, fun hcomplete => ?_⟩
  have hfirst : Issues (bundleOf [numberedCommit sourceKey 1, numberedCommit otherKey 0])
      sourceKey.keyId (.ofInt 0) (.ofInt 1) (numberedCommit sourceKey 1) :=
    issues_pair.mpr ⟨rfl, .inl ⟨rfl, rfl, rfl⟩⟩
  obtain ⟨last, _, honce⟩ := hcomplete sourceKey.keyId (.ofInt 0) ⟨_, _, hfirst⟩
  obtain ⟨_, ⟨e, he, _⟩, _⟩ := honce 0 (Nat.zero_le _)
  obtain ⟨_, ⟨_, hn, _⟩ | ⟨hsigner, _, _⟩⟩ := issues_pair.mp he
  · cases hn
  · revert hsigner
    decide

end CoolSdk
