import CoolSdk.Core.Fallible
import CoolSdk.Platform.Trust

/-!
# Signed protocol objects

The digest is over a domain label and the canonical body, the signature over a second
label and that digest. Trust is never taken from the object: the verifier looks the
key id up in its own store and refuses a carried key that differs.
-/

namespace CoolSdk

/-- A body with its digest, its signature and the signer's carried public keys. -/
structure Signed (α : Type) where
  body : α
  digest : Multihash
  signature : SignatureBlock
  signer : DirectoryEntry
  deriving DecidableEq, Repr

section

variable (H : Host)

/-- The digest of a body under a domain label. Undefined members are dropped first. -/
def digestOf (context : String) (body : JsValue) : Except String Multihash := do
  let bytes ← H.canonicalCbor body.clean
  .ok (mhSha256 H (utf8 (context ++ "\x00") ++ bytes))

/-- The bytes a signature over a digest covers. -/
def sigMessage (context : String) (digest : Multihash) : Except String Bytes := do
  let raw ← multihashDigest digest
  .ok (utf8 (context ++ ".sig\x00") ++ raw)

variable {α : Type} [ToJs α]

/-- Sign a body with an in-memory key. -/
def signObject (context : String) (body : α) (key : KeyPair) : Except String (Signed α) := do
  let digest ← digestOf H context (toJs body)
  let message ← sigMessage context digest
  .ok { body, digest, signature := H.hybridSign message key, signer := key.directoryEntry }

/-- Whether two entries hold the same two public keys, compared as bytes. -/
def sameKey (a b : DirectoryEntry) : Except String Bool := do
  let x ← fromBase64Field H a.ed25519Pub
  let y ← fromBase64Field H b.ed25519Pub
  if bytesEqual x y then
    let x ← fromBase64Field H a.mlDsaPub
    let y ← fromBase64Field H b.mlDsaPub
    .ok (bytesEqual x y)
  else .ok false

/-- Both public halves of an entry decode. -/
def Decodes (entry : DirectoryEntry) : Prop :=
  (∃ bytes, fromBase64Field H entry.ed25519Pub = .ok bytes) ∧
    ∃ bytes, fromBase64Field H entry.mlDsaPub = .ok bytes

/-- The two checks of `verifyIntegrity`. -/
structure IntegrityChecks where
  integrity : Check
  signature : Check

/-- Whether the body matches the digest the object states. -/
def integrityCheck (context : String) (s : Signed α) : Check :=
  match digestOf H context (toJs s.body) with
  | .ok digest =>
    if digest = s.digest then
      { check .pass "digest_matches" s.digest with algorithm := some "sha-256" }
    else check .fail "digest_mismatch" ("the " ++ context ++ " body does not match its digest")
  | .error err => check .fail "malformed"
      ("the " ++ context ++ " body cannot be canonically encoded: " ++ err)

/-- Whether an expected key is known and the carried key differs from it. -/
def keySubstituted (expectedKey : Option DirectoryEntry) (signer : DirectoryEntry) :
    Except String Bool :=
  match expectedKey with
  | none => .ok false
  | some key => do
    let same ← sameKey H key signer
    .ok (!same)

/-- Integrity and signature of an object, against an expected key when one is known. -/
def verifyIntegrity (context : String) (s : Signed α) (expectedKey : Option DirectoryEntry) :
    Except String IntegrityChecks :=
  let integrity := integrityCheck H context s
  if integrity.status ≠ .pass then
    .ok ⟨integrity, check .notChecked "prerequisite_failed" "integrity failed"⟩
  else do
    let substituted ← keySubstituted H expectedKey s.signer
    if substituted then
      .ok ⟨integrity, check .fail "key_substitution" ("the carried key for " ++
        s.signature.keyId ++ " differs from the trusted key")⟩
    else
      let message ← sigMessage context s.digest
      if H.hybridVerify message s.signature (expectedKey.getD s.signer) then
        .ok ⟨integrity, { check .pass "signature_valid" ("signed by " ++ s.signature.keyId) with
          algorithm := some "ml-dsa-65+ed25519" }⟩
      else .ok ⟨integrity, check .fail "signature_invalid"
        ("the " ++ context ++ " signature does not verify")⟩

/-- The three checks of `verifyTrusted`. -/
structure TrustedChecks extends IntegrityChecks where
  trusted : Check

/-- Integrity, signature and trust of an object signed by a key from the store. -/
def verifyTrusted (context : String) (s : Signed α) (trust : TrustStore) (purpose : KeyPurpose)
    (now : JsNumber) : Except String TrustedChecks := do
  let v ← verifyIntegrity H context s ((trust.get s.signature.keyId).map KeyRecord.entry)
  let trusted := if v.signature.status ≠ .pass then
      check .notChecked "prerequisite_failed" "signature not valid"
    else trust.evaluate H { keyId := s.signature.keyId, purpose, now }
  .ok { v with trusted }

/-- The stated digest is the body's, and the signature over it verifies under a key. -/
def SignedUnder (context : String) (s : Signed α) (key : DirectoryEntry) : Prop :=
  digestOf H context (toJs s.body) = .ok s.digest ∧
    ∃ message, sigMessage context s.digest = .ok message ∧
      H.hybridVerify message s.signature key = true

/-- An entry that decodes holds its own keys. -/
theorem sameKey_self {entry : DirectoryEntry} (h : Decodes H entry) :
    sameKey H entry entry = .ok true := by
  obtain ⟨⟨a, ha⟩, b, hb⟩ := h
  have hself (c : Bytes) : bytesEqual c c = true := (bytesEqual_iff c c).mpr rfl
  simp only [sameKey, ha, hb, ok_bind, hself, if_true]

/-- A signed object states the digest of its body, is signed by the key and carries it. -/
theorem signed_of_signObject {context : String} {body : α} {key : KeyPair} {s : Signed α}
    (h : signObject H context body key = .ok s) :
    s.body = body ∧ digestOf H context (toJs body) = .ok s.digest ∧
      (∃ message, sigMessage context s.digest = .ok message ∧
        s.signature = H.hybridSign message key) ∧ s.signer = key.directoryEntry := by
  unfold signObject at h
  obtain ⟨digest, hdigest, h⟩ := bind_eq_ok.mp h
  obtain ⟨message, hmessage, h⟩ := bind_eq_ok.mp h
  cases h
  exact ⟨rfl, hdigest, ⟨message, hmessage, rfl⟩, rfl⟩

/-- Signing keeps the body. -/
theorem body_of_signObject {context : String} {body : α} {key : KeyPair} {s : Signed α}
    (h : signObject H context body key = .ok s) : s.body = body := by
  unfold signObject at h
  obtain ⟨digest, _, h⟩ := bind_eq_ok.mp h
  obtain ⟨message, _, h⟩ := bind_eq_ok.mp h
  cases h
  rfl

/-- A passing integrity check recomputes the stated digest. -/
theorem digestOf_of_integrityCheck {context : String} {s : Signed α}
    (h : (integrityCheck H context s).status = .pass) :
    digestOf H context (toJs s.body) = .ok s.digest := by
  unfold integrityCheck at h
  cases hd : digestOf H context (toJs s.body) with
  | error err => simp only [hd, check, reduceCtorEq] at h
  | ok digest =>
    by_cases he : digest = s.digest
    · rw [he]
    · simp only [hd, he, if_false, check, reduceCtorEq] at h

/-- An integrity check passes or fails. -/
theorem integrityCheck_status (context : String) (s : Signed α) :
    (integrityCheck H context s).status = .pass ∨ (integrityCheck H context s).status = .fail := by
  unfold integrityCheck
  cases digestOf H context (toJs s.body) with
  | error err => exact Or.inr rfl
  | ok digest =>
    by_cases he : digest = s.digest
    · simp only [he, if_true]
      exact Or.inl rfl
    · simp only [he, if_false]
      exact Or.inr rfl

/-- A passing signature check is a signature under the expected key, or under the
carried one when none is expected. -/
theorem signedUnder_of_verifyIntegrity {context : String} {s : Signed α}
    {expectedKey : Option DirectoryEntry} {v : IntegrityChecks}
    (hv : verifyIntegrity H context s expectedKey = .ok v) (hs : v.signature.status = .pass) :
    SignedUnder H context s (expectedKey.getD s.signer) := by
  unfold verifyIntegrity at hv
  by_cases hi : (integrityCheck H context s).status = .pass
  · simp only [hi, ne_eq, not_true_eq_false, if_false] at hv
    obtain ⟨substituted, _, hv⟩ := bind_eq_ok.mp hv
    cases substituted with
    | true => cases hv; cases hs
    | false =>
      simp only [Bool.false_eq_true, if_false] at hv
      obtain ⟨message, hm, hv⟩ := bind_eq_ok.mp hv
      by_cases ho : H.hybridVerify message s.signature (expectedKey.getD s.signer) = true
      · exact ⟨digestOf_of_integrityCheck H hi, message, hm, ho⟩
      · simp only [ho] at hv
        cases hv
        cases hs
  · simp only [hi, ne_eq, not_false_eq_true, if_true] at hv
    cases hv
    cases hs

/-- The integrity check of `verifyIntegrity` recomputes the digest. -/
theorem integrity_of_verifyIntegrity {context : String} {s : Signed α}
    {expectedKey : Option DirectoryEntry} {v : IntegrityChecks}
    (hv : verifyIntegrity H context s expectedKey = .ok v) :
    v.integrity = integrityCheck H context s := by
  unfold verifyIntegrity at hv
  by_cases hi : (integrityCheck H context s).status = .pass
  · simp only [hi, ne_eq, not_true_eq_false, if_false] at hv
    obtain ⟨substituted, _, hv⟩ := bind_eq_ok.mp hv
    cases substituted with
    | true => cases hv; rfl
    | false =>
      simp only [Bool.false_eq_true, if_false] at hv
      obtain ⟨message, _, hv⟩ := bind_eq_ok.mp hv
      split at hv <;> cases hv <;> rfl
  · simp only [hi, ne_eq, not_false_eq_true, if_true] at hv
    cases hv
    rfl

/-- The trust check of `verifyTrusted` always applies. -/
theorem trusted_ne_notApplicable {context : String} {s : Signed α} {trust : TrustStore}
    {purpose : KeyPurpose} {now : JsNumber} {v : TrustedChecks}
    (hv : verifyTrusted H context s trust purpose now = .ok v) :
    v.trusted.status ≠ .notApplicable := by
  unfold verifyTrusted at hv
  obtain ⟨w, _, hv⟩ := bind_eq_ok.mp hv
  cases hv
  by_cases hs : w.signature.status = .pass
  · simp only [hs, ne_eq, not_true_eq_false, if_false]
    exact trust.evaluate_ne_notApplicable H _
  · simp only [hs, ne_eq, not_false_eq_true, if_true, check, reduceCtorEq]

/-- What a passing trust check establishes: the signature verifies under the key the
store holds for its id, and the store trusts that id for the purpose. -/
theorem trusted_of_verifyTrusted {context : String} {s : Signed α} {trust : TrustStore}
    {purpose : KeyPurpose} {now : JsNumber} {v : TrustedChecks}
    (hv : verifyTrusted H context s trust purpose now = .ok v) (ht : v.trusted.status = .pass) :
    ∃ k, trust.get s.signature.keyId = some k ∧ SignedUnder H context s k.entry ∧
      (trust.evaluate H { keyId := s.signature.keyId, purpose, now }).status = .pass := by
  unfold verifyTrusted at hv
  obtain ⟨w, hw, hv⟩ := bind_eq_ok.mp hv
  cases hv
  by_cases hs : w.signature.status = .pass
  · simp only [hs, ne_eq, not_true_eq_false, if_false] at ht
    obtain ⟨k, hk⟩ := TrustStore.get_of_evaluate_pass H ht
    refine ⟨k, hk, ?_, ht⟩
    have hu := signedUnder_of_verifyIntegrity H hw hs
    simpa only [hk, Option.map_some, Option.getD_some] using hu
  · simp only [hs, ne_eq, not_false_eq_true, if_true, check, reduceCtorEq] at ht

end

end CoolSdk
