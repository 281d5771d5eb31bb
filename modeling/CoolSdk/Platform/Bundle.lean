import CoolSdk.Platform.Envelope

/-!
# Bundle manifests

A bundle lists what it carries by kind, id and digest, in digest order, and the exporter signs
the digest of that list.
-/

namespace CoolSdk

/-- What a manifest entry stands for. -/
inductive ManifestKind
  | envelope
  | decision
  | attachment
  deriving DecidableEq, Repr

/-- The wire text of a manifest kind. -/
def ManifestKind.text : ManifestKind → String
  | envelope => "envelope"
  | decision => "decision"
  | attachment => "attachment"

/-- One line of a manifest. -/
structure BundleManifestEntry where
  kind : ManifestKind
  id : String
  digest : Multihash
  deriving DecidableEq, Repr

instance : ToJs BundleManifestEntry where
  toJs e := .object [("kind", .str e.kind.text), ("id", .str e.id), ("digest", .str e.digest)]

/-- A signed protocol object carried for offline verification. -/
structure BundleAttachment where
  kind : String
  digest : Multihash
  body : JsValue

/-- A manifest with its digest. -/
structure BundleManifest where
  entries : List BundleManifestEntry
  digest : Multihash
  deriving DecidableEq, Repr

section

variable (H : Host)

/-- A value inside a template literal. -/
def templateText : JsValue → Except String String
  | .str s => .ok s
  | v => H.textOf v

/-- The line of a decision record, cited by its policy and its time. -/
def decisionEntry (d : JsValue.Members) : Except String BundleManifestEntry := do
  let policyId ← templateText H (lookupFact d "policy_id")
  let policyVersion ← templateText H (lookupFact d "policy_version")
  let evaluatedAt ← templateText H (lookupFact d "evaluated_at")
  let bytes ← H.canonicalCbor (.object d)
  .ok { kind := .decision
        id := policyId ++ "@" ++ policyVersion ++ ":" ++ evaluatedAt
        digest := mhSha256 H bytes }

/-- The order of a manifest, by digest. -/
def compareDigests (a b : BundleManifestEntry) : JsNumber :=
  if utf16 a.digest < utf16 b.digest then .ofInt (-1)
  else if utf16 b.digest < utf16 a.digest then .ofInt 1 else .ofInt 0

/-- The digest of a list of entries under the manifest's domain label. -/
def manifestDigest (entries : List BundleManifestEntry) : Except String Multihash := do
  let bytes ← H.canonicalCbor (.array (entries.map toJs))
  .ok (mhSha256 H (utf8 "cool.bundle.manifest.v1\x00" ++ bytes))

/-- The manifest of what a bundle carries. -/
def manifestOf (envelopes : List SignedEnvelope) (decisions : List JsValue.Members)
    (attachments : List BundleAttachment) : Except String BundleManifest := do
  let decided ← decisions.mapM (decisionEntry H)
  let entries := H.sort compareDigests
    (attachments.map (fun a => ⟨.attachment, a.kind, a.digest⟩) ++
      envelopes.map (fun e => ⟨.envelope, e.core.eventId, e.digest⟩) ++ decided)
  let digest ← manifestDigest H entries
  .ok { entries, digest }

/-- The exporter's signature over a manifest. -/
def signManifest (manifest : BundleManifest) (exporter : KeyPair) :
    Except String SignatureBlock := do
  let message ← multihashDigest manifest.digest
  .ok (H.hybridSign message exporter)

end

end CoolSdk
