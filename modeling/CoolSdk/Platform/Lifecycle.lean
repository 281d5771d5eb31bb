import CoolSdk.Platform.Trust

/-!
# The life of a key

What the trust store answers, as a table over the periods of a key's life. A signing time falls
before, inside or behind the record's limits, a withdrawn key needs a time proven independently,
and a snapshot too old answers neither way.
-/

namespace CoolSdk

/-- Where a signing time stands among the limits of a record. -/
inductive KeyPeriod
  | notYetValid
  | expired
  | superseded
  | current
  deriving DecidableEq, Repr

/-- The time a query is judged at. -/
abbrev TrustQuery.signedAt (q : TrustQuery) : JsNumber :=
  (q.provenSignedBefore <|> q.claimedSignedAt).getD q.now

namespace KeyRecord

variable (H : Host)

/-- The period of a record's life a signing time falls in. -/
def period (k : KeyRecord) (at_ : JsNumber) : KeyPeriod :=
  if at_.lt (dateNumber H k.validFrom) then .notYetValid
  else if (nonEmpty k.validUntil).any fun u => (dateNumber H u).lt at_ then .expired
  else if k.status = .rotated ∧
      ((nonEmpty k.rotatedAt).any fun r => (dateNumber H r).lt at_) = true then .superseded
  else .current

/-- How a key was withdrawn: the reason given for it and the time recorded. -/
def withdrawn (k : KeyRecord) : Option (String × Option String) :=
  match k.status with
  | .compromised => some ("key_compromised", k.compromisedSince)
  | .revoked => some ("key_revoked", k.revokedAt)
  | _ => none

/-- The time a proof has to precede: the recorded one, or the start of validity. -/
def limit (k : KeyRecord) (recorded : Option String) : JsNumber :=
  dateNumber H (recorded.getD k.validFrom)

/-- The proven time of a query is not found to reach a limit. -/
def Precedes (q : TrustQuery) (limit : JsNumber) : Prop :=
  ∃ p, q.provenSignedBefore = some p ∧ limit.le p = false

instance (q : TrustQuery) (limit : JsNumber) : Decidable (Precedes q limit) :=
  match h : q.provenSignedBefore with
  | none => isFalse fun ⟨p, hp, _⟩ => by rw [h] at hp; cases hp
  | some p => decidable_of_iff (limit.le p = false)
      ⟨fun hle => ⟨p, h, hle⟩, fun ⟨p', hp, hle⟩ => by rw [h] at hp; cases hp; exact hle⟩

/-- The record accepts a query, whatever the age of the snapshot. -/
structure Accepts (k : KeyRecord) (q : TrustQuery) : Prop where
  purpose : q.purpose ∈ k.purposes
  current : k.period H q.signedAt = .current
  proven : ∀ reason recorded, k.withdrawn = some (reason, recorded) →
    Precedes q (k.limit H recorded)

/-- Status and reason of a record's answer, for a snapshot found stale or not. -/
def verdict (k : KeyRecord) (q : TrustQuery) (stale : Bool) : CheckStatus × String :=
  if q.purpose ∉ k.purposes then (.fail, "wrong_key_purpose")
  else
    match k.period H q.signedAt with
    | .notYetValid => (.fail, "key_not_yet_valid")
    | .expired => (.fail, "key_expired")
    | .superseded => (.fail, "key_rotated")
    | .current =>
      match k.withdrawn.filter fun w => !decide (Precedes q (k.limit H w.2)) with
      | some w => (.fail, w.1)
      | none => if stale then (.unknown, "trust_snapshot_stale") else (.pass, "key_trusted")

theorem verdict_pass_iff (k : KeyRecord) (q : TrustQuery) (stale : Bool) :
    (k.verdict H q stale).1 = .pass ↔ k.Accepts H q ∧ stale = false := by
  unfold verdict
  constructor
  · intro h
    by_cases hpurpose : q.purpose ∈ k.purposes
    case neg =>
      rw [if_pos hpurpose] at h
      cases h
    rw [if_neg (not_not_intro hpurpose)] at h
    cases hperiod : k.period H q.signedAt with
    | notYetValid | expired | superseded =>
      rw [hperiod] at h
      cases h
    | current =>
      simp only [hperiod] at h
      cases hw : k.withdrawn.filter fun w => !decide (Precedes q (k.limit H w.2)) with
      | some w =>
        rw [hw] at h
        cases h
      | none =>
        rw [hw] at h
        refine ⟨⟨hpurpose, hperiod, ?_⟩, ?_⟩
        · intro reason recorded hwithdrawn
          rw [hwithdrawn, Option.filter_eq_none_iff] at hw
          simpa using hw
        · cases stale with
          | false => rfl
          | true => cases h
  · rintro ⟨⟨hpurpose, hperiod, hproven⟩, rfl⟩
    have hw : (k.withdrawn.filter fun w => !decide (Precedes q (k.limit H w.2))) = none := by
      rw [Option.filter_eq_none_iff]
      rintro ⟨reason, recorded⟩ hwithdrawn
      simpa using hproven reason recorded hwithdrawn
    rw [if_neg (not_not_intro hpurpose), hperiod]
    simp only [hw, Bool.false_eq_true, if_false]

end KeyRecord

namespace TrustStore

variable (H : Host)

/-- Status and reason of the store's answer. -/
def verdict (t : TrustStore) (q : TrustQuery) : CheckStatus × String :=
  match t.get q.keyId with
  | none => (.fail, "untrusted_key")
  | some k => k.verdict H q (t.stale H q.now)

private theorem not_precedes_none {q : TrustQuery} (h : q.provenSignedBefore = none)
    (limit : JsNumber) : ¬KeyRecord.Precedes q limit := by
  rintro ⟨p, hp, _⟩
  rw [h] at hp
  cases hp

private theorem precedes_some {q : TrustQuery} {p : JsNumber} (h : q.provenSignedBefore = some p)
    (limit : JsNumber) : KeyRecord.Precedes q limit ↔ limit.le p = false := by
  constructor
  · rintro ⟨p', hp, hle⟩
    rw [h] at hp
    cases hp
    exact hle
  · exact fun hle => ⟨p, h, hle⟩

/-- The refusals of a record are those of the table. -/
private theorem keyRefusal_verdict (t : TrustStore) (k : KeyRecord) (q : TrustQuery)
    (stale : Bool) :
    (match t.keyRefusal H k q with
      | some refusal => (refusal.status, refusal.reason)
      | none => if stale then (.unknown, "trust_snapshot_stale") else (.pass, "key_trusted")) =
      k.verdict H q stale := by
  simp only [keyRefusal, KeyRecord.verdict, KeyRecord.period, KeyRecord.limit,
    List.contains_eq_mem, Bool.not_eq_true', decide_eq_false_iff_not]
  set at_ := q.signedAt
  by_cases hpurpose : q.purpose ∈ k.purposes
  case neg =>
    rw [if_pos hpurpose, if_pos hpurpose]
    rfl
  rw [if_neg (not_not_intro hpurpose), if_neg (not_not_intro hpurpose)]
  by_cases hstart : at_.lt (dateNumber H k.validFrom) = true
  case pos =>
    rw [if_pos hstart, if_pos hstart]
    rfl
  rw [if_neg hstart, if_neg hstart]
  by_cases hend : ((nonEmpty k.validUntil).any fun u => (dateNumber H u).lt at_) = true
  case pos =>
    rw [if_pos hend, if_pos hend]
    rfl
  rw [if_neg hend, if_neg hend]
  cases hs : k.status with
  | active =>
    have hw : k.withdrawn = none := by rw [KeyRecord.withdrawn, hs]
    simp only [hw, reduceCtorEq, false_and, if_false, Option.filter_none]
  | rotated =>
    have hw : k.withdrawn = none := by rw [KeyRecord.withdrawn, hs]
    simp only [hw, reduceCtorEq, false_and, if_false, Option.filter_none, true_and]
    by_cases hlate : ((nonEmpty k.rotatedAt).any fun r => (dateNumber H r).lt at_) = true
    · rw [if_pos hlate, if_pos hlate]
      rfl
    · rw [if_neg hlate, if_neg hlate]
  | revoked =>
    have hw : k.withdrawn = some ("key_revoked", k.revokedAt) := by rw [KeyRecord.withdrawn, hs]
    simp only [hw, reduceCtorEq, false_and, if_false, true_and]
    cases hp : q.provenSignedBefore with
    | none =>
      simp only [Option.filter_some, not_precedes_none hp, if_true, decide_false, Bool.not_false,
        cite]
    | some p =>
      cases hle : (dateNumber H (k.revokedAt.getD k.validFrom)).le p <;>
        simp only [Option.filter_some, precedes_some hp, hle, if_true, if_false, decide_true,
          decide_false, Bool.not_false, Bool.not_true, Bool.false_eq_true, Bool.true_eq_false,
          cite]
  | compromised =>
    have hw : k.withdrawn = some ("key_compromised", k.compromisedSince) := by
      rw [KeyRecord.withdrawn, hs]
    simp only [hw, reduceCtorEq, false_and, if_false, true_and]
    cases hp : q.provenSignedBefore with
    | none =>
      simp only [Option.filter_some, not_precedes_none hp, if_true, decide_false, Bool.not_false,
        cite]
    | some p =>
      cases hle : (dateNumber H (k.compromisedSince.getD k.validFrom)).le p <;>
        simp only [Option.filter_some, precedes_some hp, hle, if_true, if_false, decide_true,
          decide_false, Bool.not_false, Bool.not_true, Bool.false_eq_true, Bool.true_eq_false,
          cite]

/-- The store answers as the table says. -/
theorem evaluate_verdict (t : TrustStore) (q : TrustQuery) :
    ((t.evaluate H q).status, (t.evaluate H q).reason) = t.verdict H q := by
  unfold evaluate verdict
  cases t.get q.keyId with
  | none => rfl
  | some k =>
    simp only
    rw [← keyRefusal_verdict H t k q (t.stale H q.now)]
    cases t.keyRefusal H k q with
    | some refusal => rfl
    | none => cases t.stale H q.now <;> rfl

theorem evaluate_status (t : TrustStore) (q : TrustQuery) :
    (t.evaluate H q).status = (t.verdict H q).1 :=
  congrArg Prod.fst (t.evaluate_verdict H q)

/-- Trust in a key is given, refused or undecided. -/
theorem evaluate_decided (t : TrustStore) (q : TrustQuery) :
    (t.evaluate H q).status = .pass ∨ (t.evaluate H q).status = .fail ∨
      (t.evaluate H q).status = .unknown := by
  rw [evaluate_status, verdict]
  cases t.get q.keyId with
  | none => exact .inr (.inl rfl)
  | some k =>
    simp only [KeyRecord.verdict]
    by_cases hpurpose : q.purpose ∈ k.purposes
    case neg =>
      rw [if_pos hpurpose]
      exact .inr (.inl rfl)
    rw [if_neg (not_not_intro hpurpose)]
    cases k.period H q.signedAt with
    | notYetValid | expired | superseded => exact .inr (.inl rfl)
    | current =>
      cases k.withdrawn.filter fun w => !decide (KeyRecord.Precedes q (k.limit H w.2)) with
      | some w => exact .inr (.inl rfl)
      | none =>
        cases t.stale H q.now with
        | true => exact .inr (.inr rfl)
        | false => exact .inl rfl

/-- The store trusts a key exactly where its record accepts the query and the snapshot is fresh. -/
theorem evaluate_pass_iff_accepts (t : TrustStore) (q : TrustQuery) :
    (t.evaluate H q).status = .pass ↔
      ∃ k, t.get q.keyId = some k ∧ k.Accepts H q ∧ t.stale H q.now = false := by
  rw [evaluate_status, verdict]
  cases hk : t.get q.keyId with
  | none => simp only [reduceCtorEq, false_and, exists_false]
  | some k =>
    simp only [Option.some.injEq, exists_eq_left']
    exact k.verdict_pass_iff H q _

end TrustStore

end CoolSdk
