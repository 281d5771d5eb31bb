import CoolSdk.Authz.Signed
import CoolSdk.Core.Timeline
import CoolSdk.Runtime.Date

/-!
# Principals

Who is acting. A principal is enrolled by a record its issuer signed and changes only
by lifecycle events; its status and keys at a moment are replayed from the events up
to it. Unknown, suspended, revoked, decommissioned and expired principals are refused.
-/

namespace CoolSdk

/-- What kind of actor a principal is. -/
inductive PrincipalKind
  | agent
  | human
  | service
  | workload
  deriving DecidableEq, Repr

/-- The wire text of a kind. -/
def PrincipalKind.text : PrincipalKind → String
  | agent => "agent"
  | human => "human"
  | service => "service"
  | workload => "workload"

/-- What an identity rests on. -/
inductive IdentityBasis
  | selfAsserted
  | issuerAttested
  | hardwareBound
  | federated
  deriving DecidableEq, Repr

/-- The wire text of a basis. -/
def IdentityBasis.text : IdentityBasis → String
  | selfAsserted => "self_asserted"
  | issuerAttested => "issuer_attested"
  | hardwareBound => "hardware_bound"
  | federated => "federated"

/-- The status of a principal; `unknown` before its creation. -/
inductive PrincipalStatus
  | active
  | suspended
  | revoked
  | decommissioned
  | unknown
  deriving DecidableEq, Repr

/-- The wire text of a status. -/
def PrincipalStatus.text : PrincipalStatus → String
  | active => "active"
  | suspended => "suspended"
  | revoked => "revoked"
  | decommissioned => "decommissioned"
  | unknown => "unknown"

/-- A key bound to a principal at creation. -/
structure BoundKey where
  keyId : String
  entry : DirectoryEntry
  deriving DecidableEq, Repr

/-- The body of an enrolment. -/
structure PrincipalRecord where
  schema : String := "cool.principal.v1"
  principalId : String
  kind : PrincipalKind
  issuer : String
  owner : String
  tenant : Option String := none
  basis : IdentityBasis
  /-- The human or service that sponsors an agent. -/
  sponsor : Option String := none
  /-- For a delegated child agent: its parent agent. -/
  parent : Option String := none
  workloadId : Option String := none
  createdAt : String
  expiresAt : Option String := none
  /-- Keys bound at creation. -/
  keys : List BoundKey
  deriving DecidableEq, Repr

instance : ToJs PrincipalRecord where
  toJs r := .object [("schema", .str r.schema), ("principal_id", .str r.principalId),
    ("kind", .str r.kind.text), ("issuer", .str r.issuer), ("owner", .str r.owner),
    ("tenant", optional .str r.tenant), ("basis", .str r.basis.text),
    ("sponsor", optional .str r.sponsor), ("parent", optional .str r.parent),
    ("workload_id", optional .str r.workloadId), ("created_at", .str r.createdAt),
    ("expires_at", optional .str r.expiresAt),
    ("keys", .array (r.keys.map fun k =>
      .object [("key_id", .str k.keyId), ("entry", toJs k.entry)]))]

/-- What a lifecycle event does. -/
inductive PrincipalEventKind
  | keyBound
  | keyRetired
  | suspended
  | reinstated
  | revoked
  | decommissioned
  deriving DecidableEq, Repr

/-- The wire text of an event kind. -/
def PrincipalEventKind.text : PrincipalEventKind → String
  | keyBound => "key_bound"
  | keyRetired => "key_retired"
  | suspended => "suspended"
  | reinstated => "reinstated"
  | revoked => "revoked"
  | decommissioned => "decommissioned"

/-- The body of a lifecycle event. -/
structure PrincipalEvent where
  schema : String := "cool.principal-event.v1"
  eventId : String
  principalId : String
  kind : PrincipalEventKind
  at_ : String
  keyId : Option String := none
  entry : Option DirectoryEntry := none
  reason : Option String := none
  deriving DecidableEq, Repr

instance : ToJs PrincipalEvent where
  toJs e := .object [("schema", .str e.schema), ("event_id", .str e.eventId),
    ("principal_id", .str e.principalId), ("kind", .str e.kind.text), ("at", .str e.at_),
    ("key_id", optional .str e.keyId), ("entry", optional toJs e.entry),
    ("reason", optional .str e.reason)]

/-- A principal's record and the events applied to it so far. -/
structure PrincipalEntry where
  record : PrincipalRecord
  events : List PrincipalEvent
  deriving DecidableEq, Repr

/-- A principal as of a moment. -/
structure PrincipalState where
  known : Bool
  status : PrincipalStatus
  record : Option PrincipalRecord := none
  keys : OrderedMap String DirectoryEntry

/-- A verifier's view of principals, built from signed records and events. -/
@[ext]
structure PrincipalDirectory where
  trust : TrustStore
  entries : OrderedMap String PrincipalEntry

/-- The status and keys replayed so far. -/
structure Standing where
  status : PrincipalStatus
  keys : OrderedMap String DirectoryEntry

/-- The effect of one event. -/
def Standing.apply (st : Standing) (ev : PrincipalEvent) : Standing :=
  match ev.kind with
  | .keyBound =>
    match ev.keyId, ev.entry with
    | some keyId, some entry => { st with keys := st.keys.set keyId entry }
    | _, _ => st
  | .keyRetired =>
    match ev.keyId with
    | some keyId => { st with keys := st.keys.erase keyId }
    | none => st
  | .suspended => { st with status := if st.status = .active then .suspended else st.status }
  | .reinstated => { st with status := if st.status = .suspended then .active else st.status }
  | .revoked => { st with status := .revoked }
  | .decommissioned => { st with status := .decommissioned }

namespace PrincipalDirectory

/-- A directory nobody has been enrolled in. -/
def new (trust : TrustStore) : PrincipalDirectory := { trust, entries := .empty }

variable (H : Host)

/-- The comparator events are sorted with. -/
def compareEvents (a b : PrincipalEvent) : JsNumber :=
  (dateNumber H a.at_).sub (dateNumber H b.at_)

/-- Admit a signed record, or say why not. -/
def enroll (dir : PrincipalDirectory) (now : JsNumber) (s : Signed PrincipalRecord) :
    Except String (Check × PrincipalDirectory) := do
  let v ← verifyTrusted H "cool.principal.v1" s dir.trust .identityIssuer now
  if v.integrity.status ≠ .pass then .ok (v.integrity, dir)
  else if v.signature.status ≠ .pass then .ok (v.signature, dir)
  else if v.trusted.status ≠ .pass then .ok (v.trusted, dir)
  else if s.body.issuer ≠ s.signature.keyId then
    .ok (CoolSdk.check .fail "issuer_mismatch" ("record names issuer " ++ s.body.issuer ++
      " but is signed by " ++ s.signature.keyId), dir)
  else if dir.entries.has s.body.principalId then
    .ok (CoolSdk.check .fail "duplicate_principal"
      (s.body.principalId ++ " is already enrolled"), dir)
  else
    .ok (CoolSdk.check .pass "enrolled" (s.body.kind.text ++ " " ++ s.body.principalId ++ " (" ++
        s.body.basis.text ++ ") issued by " ++ s.body.issuer),
      { dir with entries := dir.entries.set s.body.principalId { record := s.body, events := [] } })

/-- Whether a `key_bound` event lacks its key id or its key. -/
def lacksKey (ev : PrincipalEvent) : Bool :=
  decide (ev.kind = .keyBound) && ((nonEmpty ev.keyId).isNone || ev.entry.isNone)

/-- Apply a signed lifecycle event; only the principal's issuer may sign it. -/
def apply (dir : PrincipalDirectory) (s : Signed PrincipalEvent) :
    Except String (Check × PrincipalDirectory) :=
  match dir.entries.get s.body.principalId with
  | none => .ok (CoolSdk.check .fail "unknown_principal"
      (s.body.principalId ++ " is not enrolled"), dir)
  | some e => do
    let issuer := dir.trust.get e.record.issuer
    let v ← verifyIntegrity H "cool.principal-event.v1" s (issuer.map KeyRecord.entry)
    if v.integrity.status ≠ .pass then .ok (v.integrity, dir)
    else if v.signature.status ≠ .pass then .ok (v.signature, dir)
    else if s.signature.keyId ≠ e.record.issuer then
      .ok (CoolSdk.check .fail "issuer_mismatch"
        ("only " ++ e.record.issuer ++ " may change " ++ s.body.principalId), dir)
    else if lacksKey s.body then
      .ok (CoolSdk.check .fail "malformed" "key_bound needs key_id and entry", dir)
    else
      let events := H.sort (compareEvents H) (e.events ++ [s.body])
      .ok (CoolSdk.check .pass "applied"
          (s.body.kind.text ++ " on " ++ s.body.principalId ++ " at " ++ s.body.at_),
        { dir with entries := dir.entries.set s.body.principalId { e with events } })

/-- State as of a moment: events after it are ignored. -/
def stateAt (dir : PrincipalDirectory) (principalId : String) (at_ : JsNumber) :
    PrincipalState :=
  match dir.entries.get principalId with
  | none => { known := false, status := .unknown, keys := .empty }
  | some e =>
    if at_.lt (dateNumber H e.record.createdAt) then
      { known := false, status := .unknown, keys := .empty }
    else
      let start : Standing :=
        { status := .active, keys := .ofList (e.record.keys.map fun k => (k.keyId, k.entry)) }
      let standing :=
        replayUntil (fun ev => at_.lt (dateNumber H ev.at_)) Standing.apply start e.events
      { known := true, status := standing.status, record := some e.record, keys := standing.keys }

/-- Whether a state's record has an expiry that lies before a moment. -/
def expired (s : PrincipalState) (at_ : JsNumber) : Bool :=
  (nonEmpty (s.record.bind PrincipalRecord.expiresAt)).any fun u => (dateNumber H u).lt at_

/-- Is a principal usable at a moment, optionally with a key? Formatting the moment
throws when it is not a valid date. -/
def check (dir : PrincipalDirectory) (principalId : String) (at_ : JsNumber)
    (keyId : Option String) : Except String Check :=
  let s := dir.stateAt H principalId at_
  if !s.known then do
    let time ← toISOString at_
    .ok (CoolSdk.check .fail "unknown_principal" (principalId ++ " is not known at " ++ time))
  else if expired H s at_ then
    .ok (CoolSdk.check .fail "principal_expired"
      (principalId ++ " expired " ++ (s.record.bind PrincipalRecord.expiresAt).getD ""))
  else if s.status ≠ .active then do
    let time ← toISOString at_
    .ok (CoolSdk.check .fail ("principal_" ++ s.status.text)
      (principalId ++ " is " ++ s.status.text ++ " at " ++ time))
  else if (nonEmpty keyId).any fun k => !s.keys.has k then do
    let time ← toISOString at_
    .ok (CoolSdk.check .fail "key_not_bound" ("key " ++ keyId.getD "" ++ " is not bound to " ++
      principalId ++ " at " ++ time))
  else do
    let time ← toISOString at_
    .ok (CoolSdk.check .pass "principal_active" (principalId ++ " active" ++
      ((nonEmpty keyId).elim "" fun k => " with key " ++ k) ++ " at " ++ time ++ " (" ++
      (s.record.elim "" fun r => r.basis.text) ++ ")"))

/-- The public key bound to a principal under a key id at a moment. -/
def keyAt (dir : PrincipalDirectory) (principalId keyId : String) (at_ : JsNumber) :
    Option DirectoryEntry :=
  (dir.stateAt H principalId at_).keys.get keyId

/-- A principal is usable at a moment when its check passes there. -/
def Usable (dir : PrincipalDirectory) (principalId : String) (at_ : JsNumber) : Prop :=
  ∃ c, dir.check H principalId at_ none = .ok c ∧ c.status = .pass

instance (dir : PrincipalDirectory) (principalId : String) (at_ : JsNumber) :
    Decidable (dir.Usable H principalId at_) :=
  match h : dir.check H principalId at_ none with
  | .error _ => isFalse (by rintro ⟨c, hc, _⟩; rw [h] at hc; cases hc)
  | .ok c => decidable_of_iff (c.status = .pass) (by
      constructor
      · intro hs
        exact ⟨c, h, hs⟩
      · rintro ⟨c', hc, hs⟩
        rw [h] at hc
        exact Except.ok.inj hc ▸ hs)

variable {H}

/-- Enrolment changes the directory only by adding a new principal whose record is signed
by the issuer it names, under a key the store trusts to issue identities now. -/
theorem enroll_cases {dir dir' : PrincipalDirectory} {now : JsNumber}
    {s : Signed PrincipalRecord} {c : Check} (h : dir.enroll H now s = .ok (c, dir')) :
    (c.status ≠ .pass ∧ dir' = dir) ∨
      (c.status = .pass ∧ s.body.issuer = s.signature.keyId ∧
        (∃ k, dir.trust.get s.signature.keyId = some k ∧
          SignedUnder H "cool.principal.v1" s k.entry ∧
          (dir.trust.evaluate H
            { keyId := s.signature.keyId, purpose := .identityIssuer, now }).status = .pass) ∧
        dir.entries.get s.body.principalId = none ∧
        dir' = { dir with
          entries := dir.entries.set s.body.principalId { record := s.body, events := [] } }) := by
  unfold enroll at h
  obtain ⟨v, hv, h⟩ := bind_eq_ok.mp h
  by_cases hi : v.integrity.status = .pass
  · by_cases hs : v.signature.status = .pass
    · by_cases ht : v.trusted.status = .pass
      · by_cases hiss : s.body.issuer = s.signature.keyId
        · by_cases hhas : dir.entries.has s.body.principalId = true
          · simp only [hi, hs, ht, hiss, hhas, ne_eq, not_true_eq_false, if_false, if_true] at h
            cases h
            exact Or.inl ⟨by simp [CoolSdk.check], rfl⟩
          · simp only [hi, hs, ht, hiss, hhas, ne_eq, not_true_eq_false, if_false] at h
            cases h
            refine Or.inr ⟨rfl, hiss, trusted_of_verifyTrusted H hv ht, ?_, rfl⟩
            simpa [OrderedMap.has] using hhas
        · simp only [hi, hs, ht, hiss, ne_eq, not_true_eq_false, not_false_eq_true, if_false,
            if_true] at h
          cases h
          exact Or.inl ⟨by simp [CoolSdk.check], rfl⟩
      · simp only [hi, hs, ht, ne_eq, not_true_eq_false, not_false_eq_true, if_false,
          if_true] at h
        cases h
        exact Or.inl ⟨ht, rfl⟩
    · simp only [hi, hs, ne_eq, not_true_eq_false, not_false_eq_true, if_false, if_true] at h
      cases h
      exact Or.inl ⟨hs, rfl⟩
  · simp only [hi, ne_eq, not_false_eq_true, if_true] at h
    cases h
    exact Or.inl ⟨hi, rfl⟩

/-- An applied event is signed by the issuer of an enrolled principal, under the key the
store holds for that issuer if it holds one; it joins that principal's events. -/
theorem apply_cases {dir dir' : PrincipalDirectory} {s : Signed PrincipalEvent} {c : Check}
    (h : dir.apply H s = .ok (c, dir')) :
    (c.status ≠ .pass ∧ dir' = dir) ∨
      (c.status = .pass ∧ ∃ e, dir.entries.get s.body.principalId = some e ∧
        s.signature.keyId = e.record.issuer ∧
        SignedUnder H "cool.principal-event.v1" s
          (((dir.trust.get e.record.issuer).map KeyRecord.entry).getD s.signer) ∧
        dir' = { dir with entries := (dir.entries.set s.body.principalId
          { e with events := H.sort (compareEvents H) (e.events ++ [s.body]) }) }) := by
  unfold apply at h
  cases he : dir.entries.get s.body.principalId with
  | none =>
    simp only [he] at h
    cases h
    exact Or.inl ⟨by simp [CoolSdk.check], rfl⟩
  | some e =>
    simp only [he] at h
    obtain ⟨v, hv, h⟩ := bind_eq_ok.mp h
    by_cases hi : v.integrity.status = .pass
    · by_cases hs : v.signature.status = .pass
      · by_cases hk : s.signature.keyId = e.record.issuer
        · by_cases hl : lacksKey s.body = true
          · simp only [hi, hs, hk, hl, ne_eq, not_true_eq_false, if_false, if_true] at h
            cases h
            exact Or.inl ⟨by simp [CoolSdk.check], rfl⟩
          · simp only [hi, hs, hk, hl, ne_eq, not_true_eq_false, if_false] at h
            cases h
            exact Or.inr ⟨rfl, e, rfl, hk, signedUnder_of_verifyIntegrity H hv hs, rfl⟩
        · simp only [hi, hs, hk, ne_eq, not_true_eq_false, not_false_eq_true, if_false,
            if_true] at h
          cases h
          exact Or.inl ⟨by simp [CoolSdk.check], rfl⟩
      · simp only [hi, hs, ne_eq, not_true_eq_false, not_false_eq_true, if_false, if_true] at h
        cases h
        exact Or.inl ⟨hs, rfl⟩
    · simp only [hi, ne_eq, not_false_eq_true, if_true] at h
      cases h
      exact Or.inl ⟨hi, rfl⟩

/-- A check that answers passes or fails. -/
theorem check_status {dir : PrincipalDirectory} {principalId : String} {at_ : JsNumber}
    {keyId : Option String} {c : Check} (h : dir.check H principalId at_ keyId = .ok c) :
    c.status = .pass ∨ c.status = .fail := by
  unfold check at h
  simp only at h
  split at h
  · obtain ⟨time, _, h⟩ := bind_eq_ok.mp h
    cases h
    exact Or.inr rfl
  · split at h
    · cases h
      exact Or.inr rfl
    · split at h
      · obtain ⟨time, _, h⟩ := bind_eq_ok.mp h
        cases h
        exact Or.inr rfl
      · split at h
        · obtain ⟨time, _, h⟩ := bind_eq_ok.mp h
          cases h
          exact Or.inr rfl
        · obtain ⟨time, _, h⟩ := bind_eq_ok.mp h
          cases h
          exact Or.inl rfl

/-- A principal is known, unexpired and active at a moment. -/
structure ActiveAt (H : Host) (dir : PrincipalDirectory) (principalId : String)
    (at_ : JsNumber) : Prop where
  known : (dir.stateAt H principalId at_).known = true
  unexpired : expired H (dir.stateAt H principalId at_) at_ = false
  status : (dir.stateAt H principalId at_).status = .active

/-- A passing check means an active principal. -/
theorem active_of_check {dir : PrincipalDirectory} {principalId : String} {at_ : JsNumber}
    {keyId : Option String} {c : Check} (h : dir.check H principalId at_ keyId = .ok c)
    (hc : c.status = .pass) : dir.ActiveAt H principalId at_ := by
  unfold check at h
  by_cases hk : (dir.stateAt H principalId at_).known = true
  · by_cases he : expired H (dir.stateAt H principalId at_) at_ = true
    · simp only [hk, he, Bool.not_true, Bool.false_eq_true, if_false, if_true] at h
      cases h
      cases hc
    · refine ⟨hk, by simpa using he, ?_⟩
      by_contra hs
      simp only [hk, he, hs, Bool.not_true, Bool.false_eq_true, if_false, ne_eq,
        not_false_eq_true, if_true] at h
      obtain ⟨time, _, h⟩ := bind_eq_ok.mp h
      cases h
      cases hc
  · simp only [hk, Bool.not_false, if_true] at h
    obtain ⟨time, _, h⟩ := bind_eq_ok.mp h
    cases h
    cases hc

/-- A usable principal is active. -/
theorem Usable.active {dir : PrincipalDirectory} {principalId : String} {at_ : JsNumber}
    (h : dir.Usable H principalId at_) : dir.ActiveAt H principalId at_ := by
  obtain ⟨c, hc, hpass⟩ := h
  exact active_of_check hc hpass

/-- A principal is usable only at a moment that is a valid date. -/
theorem ne_nan_of_usable {dir : PrincipalDirectory} {principalId : String} {at_ : JsNumber}
    (h : dir.Usable H principalId at_) : at_ ≠ .nan := by
  rintro rfl
  obtain ⟨c, hc, hpass⟩ := h
  have htime : toISOString .nan = .error invalidTime := rfl
  unfold check at hc
  simp only [htime] at hc
  by_cases hk : (dir.stateAt H principalId .nan).known = true
  · simp only [hk, Bool.not_true, Bool.false_eq_true, if_false] at hc
    split at hc
    · cases hc
      cases hpass
    · split at hc
      · cases hc
      · split at hc <;> cases hc
  · simp only [hk, Bool.not_false, if_true] at hc
    cases hc

end PrincipalDirectory

end CoolSdk
