import CoolSdk.Core.OrderedMap
import CoolSdk.Runtime.Host

/-!
# Key directories

What reading a key id in a directory object gives: an entry, nothing, or one of the members that
every object inherits, which is no key.
-/

namespace CoolSdk

/-- The methods every object inherits. -/
def objectMethods : List String :=
  ["constructor", "hasOwnProperty", "isPrototypeOf", "propertyIsEnumerable", "toLocaleString",
    "toString", "valueOf", "__defineGetter__", "__defineSetter__", "__lookupGetter__",
    "__lookupSetter__"]

/-- Whether a name is found on every object without being its own. -/
def isInherited (name : String) : Bool := decide (name = "__proto__") || objectMethods.contains name

/-- The public keys by their ids. -/
abbrev KeyDirectory := OrderedMap String DirectoryEntry

/-- What the key directory reads under a key id. -/
inductive CarriedKey
  | absent
  /-- A member of every object, which holds no public key. -/
  | inherited
  | entry (value : DirectoryEntry)
  deriving DecidableEq, Repr

/-- `directory[keyId]`. -/
def KeyDirectory.read (directory : KeyDirectory) (keyId : String) : CarriedKey :=
  match directory.get keyId with
  | some entry => .entry entry
  | none => if isInherited keyId then .inherited else .absent

/-- Whether a signature verifies under what the directory reads. -/
def CarriedKey.verifies (H : Host) (message : Bytes) (sig : SignatureBlock) : CarriedKey → Bool
  | .entry value => H.hybridVerify message sig value
  | .absent | .inherited => false

end CoolSdk
