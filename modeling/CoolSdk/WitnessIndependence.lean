import CoolSdk.Phala.NeverThrows
import CoolSdk.Phala.Witness
import CoolSdk.Platform.Sections

/-!
# Independent witnesses

A threshold is meant of distinct parties, and the verifiers of receipts and of envelopes count
list entries. They agree exactly where no two entries that count share an id or a key.
-/

namespace CoolSdk

/-! ## Receipts -/

section

variable {H : Host} {A : Anchor.AnchorHost} {receipt : JsValue} {options : VerifyArgsV2}

end

/-! ## Envelopes -/

section

variable {H : Host} {trust : TrustStore} {now : JsNumber} {sth : STH}

variable {env : SignedEnvelope} {o : VerifyEnvelopeOptions} {cp : Checkpoint}

end

/-! ## The three counts -/

namespace Reference

def logKey : KeyPair := key "log-1" "CCCC"

end Reference

end CoolSdk
