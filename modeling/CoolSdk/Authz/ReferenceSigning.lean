import CoolSdk.Authz.Signed
import CoolSdk.Runtime.ReferenceHost

/-!
# Signing on the reference host

Keys, trust stores and signed objects of the reference host, for running the verifiers.
What `signObject` produces there verifies under the key that signed it.
-/

namespace CoolSdk.Reference

/-- A key pair with both public halves encoding the given base64 material. -/
def key (keyId material : String) : KeyPair :=
  { keyId
    directoryEntry := { mlDsaPub := "base64:" ++ material, ed25519Pub := "base64:" ++ material }
    mlDsaSecret := []
    ed25519Secret := [] }

/-- The record of an active key valid from the start of 2026. -/
def keyRecord (key : KeyPair) (purposes : List KeyPurpose) : KeyRecord :=
  { keyId := key.keyId
    entry := key.directoryEntry
    purposes
    owner := "acme"
    validFrom := "2026-01-01T00:00:00.000Z"
    status := .active }

/-- A trust store without a freshness bound. -/
def store (keys : List KeyRecord) : TrustStore :=
  { id := "snapshot-1"
    asOf := "2026-01-01T00:00:00.000Z"
    maxAgeMs := none
    keys := .ofList (keys.map fun k => (k.keyId, k)) }

/-- The moment `ms` milliseconds into 2026. -/
def clock (ms : Int) : JsNumber := .ofInt (1767225600000 + ms)

variable {α : Type} [ToJs α]

/-- The signed object, or an unsigned one where the body has no encoding. -/
def signed (context : String) (body : α) (key : KeyPair) : Signed α :=
  match signObject host context body key with
  | .ok s => s
  | .error _ =>
    { body, digest := "", signature := ⟨"", key.keyId, "", ""⟩, signer := key.directoryEntry }

/-- Signing keeps the body. -/
@[simp] theorem signed_body (context : String) (body : α) (key : KeyPair) :
    (signed context body key).body = body := by
  unfold signed
  cases hs : signObject host context body key with
  | error err => rfl
  | ok s => exact body_of_signObject host hs

/-- A signature made by a key verifies under it. -/
theorem hybridVerify_hybridSign (message : Bytes) (key : KeyPair) :
    hybridVerify message (hybridSign message key) key.directoryEntry = true := by
  simp only [hybridVerify, hybridSign, decide_true, Bool.and_self]

/-- A signed object verifies under the key that signed it. -/
theorem signedUnder_of_signObject {context : String} {body : α} {key : KeyPair} {s : Signed α}
    (h : signObject host context body key = .ok s) :
    SignedUnder host context s key.directoryEntry := by
  unfold signObject at h
  obtain ⟨digest, hd, h⟩ := bind_eq_ok.mp h
  obtain ⟨message, hm, h⟩ := bind_eq_ok.mp h
  cases h
  exact ⟨hd, message, hm, hybridVerify_hybridSign message key⟩

end CoolSdk.Reference
