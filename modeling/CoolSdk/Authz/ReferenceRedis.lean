import CoolSdk.Authz.Resp
import CoolSdk.Runtime.ReferenceHost

/-!
# A reference reader of replies

Text is decoded where it is valid UTF-8, and a number is read from its decimal digits. Both are
what the runtime does with the texts and the lengths that a server writes.
-/

namespace CoolSdk.Reference

end CoolSdk.Reference
