import CoolSdk.Runtime.Value

/-!
# Shared wire types

The hybrid signature block, a key directory entry, and the signed tree head of the
transparency log, with the object literals they are encoded from.
-/

namespace CoolSdk

/-- A multihash-tagged SHA-256 digest, `mh:sha256:<hex>`. -/
abbrev Multihash := String

/-- A classical and a post-quantum signature over one message. -/
structure SignatureBlock where
  alg : String
  keyId : String
  mlDsa : String
  ed25519 : String
  deriving DecidableEq, Repr

/-- The two public keys of a hybrid key id. -/
structure DirectoryEntry where
  mlDsaPub : String
  ed25519Pub : String
  deriving DecidableEq, Repr

instance : ToJs DirectoryEntry where
  toJs e := .object [("ml_dsa_pub", .str e.mlDsaPub), ("ed25519_pub", .str e.ed25519Pub)]

/-- A key pair held in memory. -/
structure KeyPair where
  keyId : String
  directoryEntry : DirectoryEntry
  mlDsaSecret : Bytes
  ed25519Secret : Bytes

/-- A witness co-signature on a tree head. -/
structure Witness where
  id : String
  /-- Only external witnesses count toward independence. -/
  external : Bool
  alg : String
  mlDsa : String
  ed25519 : String
  deriving DecidableEq, Repr

/-- The part of a tree head its signature covers. -/
structure STHCore where
  logId : String
  treeSize : Nat
  rootHash : Multihash
  timestamp : String
  deriving DecidableEq, Repr

instance : ToJs STHCore where
  toJs c := .object [("log_id", .str c.logId), ("tree_size", .num (.ofInt c.treeSize)),
    ("root_hash", .str c.rootHash), ("timestamp", .str c.timestamp)]

/-- A signed tree head with its co-signatures. -/
structure STH extends STHCore where
  signature : SignatureBlock
  witnesses : List Witness
  deriving DecidableEq, Repr

/-- Reduce a tree head to the fields covered by its signature. -/
def sthCore (sth : STH) : STHCore := sth.toSTHCore

end CoolSdk
