import CoolSdk.Runtime.Host

/-!
# Simulated quotes

The attested body of a quote and the bytes the simulator root signs over it.
-/

namespace CoolSdk

/-- The silicon a record was produced on. -/
inductive TeeVendor
  | none
  | intelTdx
  | amdSevSnp
  | nvidiaCc
  deriving DecidableEq, Repr

/-- The wire text of a vendor. -/
def TeeVendor.text : TeeVendor → String
  | none => "none"
  | intelTdx => "intel-tdx"
  | amdSevSnp => "amd-sev-snp"
  | nvidiaCc => "nvidia-cc"

/-- The measurement registers of an image, in the `hex:` form. -/
structure Measurement where
  mrtd : String
  rtmr0 : String
  rtmr1 : String
  rtmr2 : String
  rtmr3 : String
  deriving DecidableEq, Repr

instance : ToJs Measurement where
  toJs m := .object [("mrtd", .str m.mrtd), ("rtmr0", .str m.rtmr0), ("rtmr1", .str m.rtmr1),
    ("rtmr2", .str m.rtmr2), ("rtmr3", .str m.rtmr3)]

/-- What the silicon, or the simulator, attests to. -/
structure QuoteBody where
  vendor : TeeVendor
  measurement : Measurement
  /-- The commitment to the enclave's signing key. -/
  reportData : Multihash
  tcbStatus : String
  appId : String
  instanceId : String
  issuedAt : String
  deriving DecidableEq, Repr

instance : ToJs QuoteBody where
  toJs q := .object [("vendor", .str q.vendor.text), ("measurement", toJs q.measurement),
    ("report_data", .str q.reportData), ("tcb_status", .str q.tcbStatus),
    ("app_id", .str q.appId), ("instance_id", .str q.instanceId), ("issued_at", .str q.issuedAt)]

/-- The bytes a quote's signature covers. -/
def quoteSigningMessage (H : Host) (body : QuoteBody) : Except String Bytes :=
  H.canonicalCbor (toJs body)

/-- Sign a quote body with the simulator's root key. -/
def signSimulatedQuote (H : Host) (body : QuoteBody) (rootKey : KeyPair) :
    Except String SignatureBlock := do
  let message ← quoteSigningMessage H body
  .ok (H.hybridSign message rootKey)

end CoolSdk
