import CoolSdk.Platform.Status
import CoolSdk.Runtime.Host

/-!
# Trust

Which keys a verifier accepts, for what and until when. The answer is read from the
verifier's own snapshot by key id: the carried public key never enters it. A key
whose status is revoked or compromised needs a signing time proven independently.
-/

namespace CoolSdk

/-- What a key may be used for. -/
inductive KeyPurpose
  | evidence
  | log
  | witness
  | builder
  | policy
  | enforcement
  | source
  | identityIssuer
  | evaluator
  deriving DecidableEq, Repr

/-- The wire text of a purpose. -/
def KeyPurpose.text : KeyPurpose → String
  | evidence => "evidence"
  | log => "log"
  | witness => "witness"
  | builder => "builder"
  | policy => "policy"
  | enforcement => "enforcement"
  | source => "source"
  | identityIssuer => "identity_issuer"
  | evaluator => "evaluator"

/-- The lifecycle status of a key. -/
inductive KeyStatus
  | active
  | rotated
  | revoked
  | compromised
  deriving DecidableEq, Repr

/-- The wire text of a status. -/
def KeyStatus.text : KeyStatus → String
  | active => "active"
  | rotated => "rotated"
  | revoked => "revoked"
  | compromised => "compromised"

/-- A key the verifier knows. -/
structure KeyRecord where
  keyId : String
  entry : DirectoryEntry
  purposes : List KeyPurpose
  owner : String
  validFrom : String
  validUntil : Option String := none
  status : KeyStatus
  /-- For rotated keys: when the successor took over. -/
  rotatedAt : Option String := none
  successor : Option String := none
  revokedAt : Option String := none
  compromisedSince : Option String := none
  deriving DecidableEq, Repr

/-- A set of keys as of a time. -/
structure TrustSnapshot where
  schema : String
  id : String
  asOf : String
  /-- How long the snapshot may be relied on. -/
  maxAgeMs : Option JsNumber := none
  keys : List KeyRecord

/-- One question to the trust store. -/
structure TrustQuery where
  keyId : String
  purpose : KeyPurpose
  /-- Verification time. -/
  now : JsNumber
  /-- Signing time claimed by the evidence itself. -/
  claimedSignedAt : Option JsNumber := none
  /-- Signing time proven independently. -/
  provenSignedBefore : Option JsNumber := none

/-- The verifier's keys by id, with the snapshot they came from. -/
structure TrustStore where
  id : String
  asOf : String
  maxAgeMs : Option JsNumber
  keys : OrderedMap String KeyRecord

namespace TrustStore

/-- Build a store. A later record replaces an earlier one with the same id, and a falsy
maximal age is not kept. -/
def ofSnapshot (s : TrustSnapshot) : Except String TrustStore :=
  if s.schema ≠ "cool.trust-snapshot.v1" then
    .error ("unsupported trust snapshot " ++ s.schema)
  else .ok
    { id := s.id
      asOf := s.asOf
      maxAgeMs := s.maxAgeMs.filter JsNumber.truthy
      keys := .ofList (s.keys.map fun k => (k.keyId, k)) }

/-- The record of a key id. -/
def get (t : TrustStore) (keyId : String) : Option KeyRecord := t.keys.get keyId

/-- The snapshot the store stands for, with the records in the order their ids first came. -/
def snapshot (t : TrustStore) : TrustSnapshot :=
  { schema := "cool.trust-snapshot.v1"
    id := t.id
    asOf := t.asOf
    maxAgeMs := t.maxAgeMs
    keys := t.keys.values }

/-- How the store is cited. -/
def ref (t : TrustStore) : String := t.id ++ "@" ++ t.asOf

/-- A check that cites the store. -/
def cite (t : TrustStore) (status : CheckStatus) (reason detail : String) : Check :=
  { status, reason, detail, evidenceRef := some t.ref }

variable (H : Host)

/-- The refusals that depend on the key record and the times alone. -/
def keyRefusal (t : TrustStore) (k : KeyRecord) (q : TrustQuery) : Option Check :=
  let at_ := (q.provenSignedBefore <|> q.claimedSignedAt).getD q.now
  let since := k.compromisedSince.getD k.validFrom
  let revoked := k.revokedAt.getD k.validFrom
  let unproven (limit : JsNumber) : Bool :=
    match q.provenSignedBefore with
    | none => true
    | some proven => limit.le proven
  if !k.purposes.contains q.purpose then
    some (t.cite .fail "wrong_key_purpose" ("key " ++ q.keyId ++ " is trusted for " ++
      ", ".intercalate (k.purposes.map KeyPurpose.text) ++ ", not " ++ q.purpose.text))
  else if at_.lt (dateNumber H k.validFrom) then
    some (t.cite .fail "key_not_yet_valid"
      ("key " ++ q.keyId ++ " is valid from " ++ k.validFrom))
  else if (nonEmpty k.validUntil).any fun u => (dateNumber H u).lt at_ then
    some (t.cite .fail "key_expired"
      ("key " ++ q.keyId ++ " expired " ++ k.validUntil.getD ""))
  else if k.status = .compromised ∧ unproven (dateNumber H since) = true then
    some (t.cite .fail "key_compromised" ("key " ++ q.keyId ++ " is compromised since " ++ since ++
      "; no independent proof the signature predates it"))
  else if k.status = .revoked ∧ unproven (dateNumber H revoked) = true then
    some (t.cite .fail "key_revoked" ("key " ++ q.keyId ++ " was revoked " ++
      k.revokedAt.getD "(time not recorded)" ++
      "; a signature can only be accepted with independent proof it predates that"))
  else if k.status = .rotated ∧
      ((nonEmpty k.rotatedAt).any fun r => (dateNumber H r).lt at_) = true then
    some (t.cite .fail "key_rotated" ("key " ++ q.keyId ++ " was superseded by " ++
      k.successor.getD "a successor" ++ " at " ++ k.rotatedAt.getD ""))
  else none

/-- Whether the snapshot is older than it may be relied on. -/
def stale (t : TrustStore) (now : JsNumber) : Bool :=
  t.maxAgeMs.any fun limit => limit.lt (now.sub (dateNumber H t.asOf))

/-- Decide whether a key is trusted for a purpose at a time. -/
def evaluate (t : TrustStore) (q : TrustQuery) : Check :=
  match t.get q.keyId with
  | none => t.cite .fail "untrusted_key"
      ("key " ++ q.keyId ++ " is not in trust snapshot " ++ t.ref)
  | some k =>
    match t.keyRefusal H k q with
    | some refusal => refusal
    | none =>
      if t.stale H q.now then
        t.cite .unknown "trust_snapshot_stale" ("trust snapshot " ++ t.ref ++ " is older than " ++
          H.numberText (t.maxAgeMs.getD .nan) ++ " ms; revocations since then are unknown")
      else
        let historic := if k.status ≠ .active then
          " (status " ++ k.status.text ++ "; accepted because signing is proven to predate it)"
          else ""
        { t.cite .pass "key_trusted"
            ("key " ++ q.keyId ++ " is trusted for " ++ q.purpose.text ++ " by " ++ k.owner ++
              historic) with
          limitation := if t.maxAgeMs = none then
            some ("the snapshot states no freshness bound, so revocations after its as_of " ++
              "time are not reflected")
            else none }

private theorem keyRefusal_fail {t : TrustStore} {k : KeyRecord} {q : TrustQuery}
    {refusal : Check} (h : t.keyRefusal H k q = some refusal) : refusal.status = .fail := by
  unfold keyRefusal at h
  simp only at h
  split_ifs at h <;> exact Option.some.inj h ▸ rfl

/-- Trust in a key is always decided one way or another. -/
theorem evaluate_ne_notApplicable (t : TrustStore) (q : TrustQuery) :
    (t.evaluate H q).status ≠ .notApplicable := by
  unfold evaluate
  cases hk : t.get q.keyId with
  | none => exact nofun
  | some k =>
    cases hr : t.keyRefusal H k q with
    | some refusal =>
      simp only [hr, keyRefusal_fail H hr, ne_eq, reduceCtorEq, not_false_eq_true]
    | none =>
      by_cases hs : t.stale H q.now = true
      · simp only [hr, hs, if_true, cite, ne_eq, reduceCtorEq, not_false_eq_true]
      · simp only [hr, hs, Bool.false_eq_true, if_false, cite, ne_eq, reduceCtorEq,
          not_false_eq_true]

/-- A trusted key is in the store, for the purpose, with no refusal and a fresh snapshot. -/
theorem evaluate_pass_iff (t : TrustStore) (q : TrustQuery) :
    (t.evaluate H q).status = .pass ↔
      ∃ k, t.get q.keyId = some k ∧ t.keyRefusal H k q = none ∧ t.stale H q.now = false := by
  unfold evaluate
  cases hk : t.get q.keyId with
  | none => simp only [cite, reduceCtorEq, false_and, exists_false]
  | some k =>
    simp only [Option.some.injEq, exists_eq_left']
    cases hr : t.keyRefusal H k q with
    | some refusal =>
      have hfail := keyRefusal_fail H hr
      constructor
      · intro h
        rw [hfail] at h
        cases h
      · rintro ⟨h, _⟩
        cases h
    | none =>
      by_cases hs : t.stale H q.now = true
      · simp only [hs, if_true, cite, reduceCtorEq, and_false]
      · rw [Bool.not_eq_true] at hs
        simp only [hs, Bool.false_eq_true, if_false, cite, and_self]

private theorem ite_some_eq_none {c : Prop} [Decidable c] {α : Type} {a : α} {o : Option α} :
    (if c then some a else o) = none ↔ ¬c ∧ o = none := by
  by_cases hc : c
  · simp only [hc, if_true, reduceCtorEq, not_true_eq_false, false_and]
  · simp only [hc, if_false, not_false_eq_true, true_and]

/-- The clock stands inside the limits that only time can cross: the key's validity, its
succession and the store's freshness. -/
structure CurrentAt (t : TrustStore) (k : KeyRecord) (now : JsNumber) : Prop where
  started : now.lt (dateNumber H k.validFrom) = false
  notExpired : ((nonEmpty k.validUntil).any fun u => (dateNumber H u).lt now) = false
  notRotated : k.status = .rotated →
    ((nonEmpty k.rotatedAt).any fun r => (dateNumber H r).lt now) = false
  fresh : t.stale H now = false

/-- With no claimed or proven signing time, trust splits into what the record says once and
for all and what the clock decides. -/
theorem evaluate_now_pass_iff (t : TrustStore) (keyId : String) (purpose : KeyPurpose)
    (now : JsNumber) :
    (t.evaluate H { keyId, purpose, now }).status = .pass ↔
      ∃ k, t.get keyId = some k ∧ k.purposes.contains purpose = true ∧
        k.status ≠ .compromised ∧ k.status ≠ .revoked ∧ t.CurrentAt H k now := by
  have hrefusal : ∀ k, t.keyRefusal H k { keyId, purpose, now } = none ∧ t.stale H now = false ↔
      k.purposes.contains purpose = true ∧ k.status ≠ .compromised ∧ k.status ≠ .revoked ∧
        t.CurrentAt H k now := by
    intro k
    simp only [keyRefusal, ite_some_eq_none, Option.orElse_eq_orElse, Option.orElse_none,
      Option.getD_none, and_true, Bool.not_eq_true, Bool.not_eq_false']
    constructor
    · rintro ⟨⟨hpurpose, hfrom, huntil, hcompromised, hrevoked, hrotated⟩, hfresh⟩
      refine ⟨hpurpose, fun h => absurd (hcompromised h) (by simp),
        fun h => absurd (hrevoked h) (by simp), hfrom, huntil, ?_, hfresh⟩
      intro hs
      have hlate := (ite_some_eq_none.mp hrotated).1
      simpa only [hs, true_and, Bool.not_eq_true] using hlate
    · rintro ⟨hpurpose, hcompromised, hrevoked, hfrom, huntil, hrotated, hfresh⟩
      refine ⟨⟨hpurpose, hfrom, huntil, fun h => absurd h hcompromised,
        fun h => absurd h hrevoked, ite_some_eq_none.mpr ⟨?_, rfl⟩⟩, hfresh⟩
      rintro ⟨hs, hlate⟩
      rw [hrotated hs] at hlate
      cases hlate
  rw [evaluate_pass_iff]
  simp only [hrefusal]

/-- A pass comes from a record the store itself holds. -/
theorem get_of_evaluate_pass {t : TrustStore} {q : TrustQuery}
    (h : (t.evaluate H q).status = .pass) : ∃ k, t.get q.keyId = some k := by
  obtain ⟨k, hk, _⟩ := (t.evaluate_pass_iff H q).mp h
  exact ⟨k, hk⟩

end TrustStore

end CoolSdk
