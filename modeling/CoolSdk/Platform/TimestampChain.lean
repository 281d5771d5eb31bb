import CoolSdk.Platform.Status
import CoolSdk.Wire.Codec

/-!
# The certificate chain of a timestamp

From the certificate of a timestamp authority the verifier looks for a chain to an anchor that is
pinned. It goes from each certificate to the first in the pool that has issued it, and never comes
back to try another.
-/

namespace CoolSdk

/-- The hash functions a token may name. -/
inductive HashName
  | sha256
  | sha384
  | sha512
  | sha1
  deriving DecidableEq, Repr

/-- What `node:crypto` makes of certificates, and its primitives. -/
structure NodeCrypto (κ : Type) where
  /-- `createHash(name).update(data).digest()`. -/
  createHash : HashName → Bytes → Bytes
  /-- `new X509Certificate(der)`. -/
  certificate : Bytes → Except String κ
  raw : κ → Bytes
  subject : κ → String
  /-- `Date.parse(c.validFrom)`; `none` is `NaN`. -/
  validFrom : κ → Option Int
  /-- `Date.parse(c.validTo)`; `none` is `NaN`. -/
  validTo : κ → Option Int
  ca : κ → Bool
  /-- `c.keyUsage ?? []`: the extended usages. -/
  keyUsage : κ → List String
  /-- `c.checkIssued(d)`. -/
  checkIssued : κ → κ → Bool
  /-- `c.verify(d.publicKey)`. -/
  verify : κ → κ → Bool
  /-- `verify(name, data, key, signature)` with the key of a certificate; `false` also where it
  throws. -/
  cryptoVerify : HashName → Bytes → κ → Bytes → Bool

/-- The common name in the text of a subject, which has an attribute on each line. -/
def commonName? (subject : String) : Option String :=
  ((subject.toList.splitOn '\n').find? "CN=".toList.isPrefixOf).map fun l =>
    String.ofList (l.drop 3)

/-- A pinned trust anchor. -/
structure TsaTrustAnchor where
  name : String
  der : Bytes
  deriving DecidableEq, Repr

/-- An anchor with its certificate and fingerprint. -/
structure PinnedAnchor (κ : Type) where
  name : String
  cert : κ
  fp : String

namespace NodeCrypto

variable {κ : Type} (C : NodeCrypto κ)

def fp256 (der : Bytes) : String := toHex (C.createHash .sha256 der)

/-- Only compared, so the bytes of the digest stand for it. -/
def fingerprint256 (c : κ) : Bytes := C.createHash .sha256 (C.raw c)

/-- Whether a time is within the validity of a certificate. No date is, where one is `NaN`. -/
def valid (time : Int) (c : κ) : Bool :=
  match C.validFrom c, C.validTo c with
  | some validFrom, some validTo => decide (validFrom ≤ time) && decide (time ≤ validTo)
  | _, _ => false

/-- `current` was issued by a certificate and verifies under its key. -/
def issuedBy (current c : κ) : Bool := C.checkIssued current c && C.verify current c

/-- A certificate of the pool that may come next. -/
def isIssuer (current c : κ) : Bool :=
  decide (C.fingerprint256 c ≠ C.fingerprint256 current) && C.issuedBy current c

def commonName (c : κ) : String := (commonName? (C.subject c)).getD "certificate"

def pin (anchor : TsaTrustAnchor) : Except String (PinnedAnchor κ) := do
  let cert ← C.certificate anchor.der
  return { name := anchor.name, cert, fp := C.fp256 anchor.der }

/-- A certificate that is pinned itself. -/
def isSelf (current : κ) (a : PinnedAnchor κ) : Bool :=
  decide (a.fp = C.fp256 (C.raw current))

/-- The loop of `buildChain`, with so many turns left; `first` says that `depth` is zero. -/
def chainLoop (pool : List κ) (pinned : List (PinnedAnchor κ)) (time : Int) :
    Nat → Bool → κ → List String → Check × Option String
  | 0, _, _, _ => (check .fail "chain_invalid" "certificate chain too long", none)
  | turns + 1, first, current, path =>
    match pinned.find? fun a => !first && C.isSelf current a with
    | some self =>
      (check .pass "chain_valid" (" → ".intercalate (path ++ [self.name])), some self.name)
    | none =>
      match pinned.find? fun a => C.issuedBy current a.cert with
      | some anchor =>
        if !C.valid time anchor.cert then
          (check .fail "certificate_expired"
            ("anchor " ++ anchor.name ++ " is not valid at genTime"), none)
        else
          (check .pass "chain_valid"
            (" → ".intercalate (path ++ [C.commonName current, anchor.name])), some anchor.name)
      | none =>
        match pool.find? (C.isIssuer current) with
        | none =>
          (check .fail "untrusted_root"
            "the TSA certificate does not chain to a pinned trust anchor", none)
        | some issuer =>
          if !C.ca issuer then
            (check .fail "chain_invalid" "an issuing certificate is not a CA", none)
          else if !C.valid time issuer then
            (check .fail "certificate_expired" "an intermediate is not valid at genTime", none)
          else chainLoop pool pinned time turns false issuer (path ++ [C.commonName current])

/-- The chain from a certificate to an anchor, and which. -/
def buildChain (leaf : κ) (pool : List κ) (anchors : List TsaTrustAnchor) (time : Int) :
    Except String (Check × Option String) :=
  if anchors.isEmpty then
    .ok (check .unknown "no_trust_anchor"
      "no TSA trust anchor was supplied; the signature cannot be attributed", none)
  else do
    let pinned ← anchors.mapM C.pin
    return C.chainLoop pool pinned time 8 true leaf []

/-- Whether the chain is found. -/
def ChainPasses (leaf : κ) (pool : List κ) (anchors : List TsaTrustAnchor) (time : Int) : Prop :=
  ∃ result, C.buildChain leaf pool anchors time = .ok result ∧ result.1.status = .pass

/-! ## Paths -/

/-- The anchors that are certificates. -/
def pinnedOf (anchors : List TsaTrustAnchor) : List (PinnedAnchor κ) :=
  anchors.filterMap fun a => (C.pin a).toOption

section

variable (pool : List κ) (pinned : List (PinnedAnchor κ)) (time : Int)

/-- A path of so many certificates at most, over valid CA certificates of the pool, to a pinned
anchor that is valid: one that has issued the last, or is the last. -/
inductive Path : Nat → Bool → κ → Prop
  | self {n c a} : a ∈ pinned → C.isSelf c a = true → Path (n + 1) false c
  | anchored {n first c a} : a ∈ pinned → C.issuedBy c a.cert = true →
    C.valid time a.cert = true → Path (n + 1) first c
  | issued {n first c issuer} : issuer ∈ pool → C.isIssuer c issuer = true → C.ca issuer = true →
    C.valid time issuer = true → Path n false issuer → Path (n + 1) first c

/-- The search does not end at a certificate, as far as it is pinned. -/
def NotSelf (first : Bool) (c : κ) : Prop :=
  ∀ a ∈ pinned, first = false → C.isSelf c a = false

/-- No anchor has issued a certificate. -/
def Unanchored (c : κ) : Prop := ∀ a ∈ pinned, C.issuedBy c a.cert = false

/-- A walk of so many certificates at most that goes wrong: from each that no anchor has issued it
goes on to one of the pool that has, until an anchor is not valid, there is no issuer, the issuer
is no CA or not valid, or the walk is too long. -/
inductive Strays : Nat → Bool → κ → Prop
  | tooLong {first c} : Strays 0 first c
  | expiredAnchor {n first c a} : C.NotSelf pinned first c → a ∈ pinned →
    C.issuedBy c a.cert = true → C.valid time a.cert = false → Strays (n + 1) first c
  | untrusted {n first c} : C.NotSelf pinned first c → C.Unanchored pinned c →
    (∀ issuer ∈ pool, C.isIssuer c issuer = false) → Strays (n + 1) first c
  | refused {n first c issuer} : C.NotSelf pinned first c → C.Unanchored pinned c →
    issuer ∈ pool → C.isIssuer c issuer = true →
    (C.ca issuer && C.valid time issuer) = false → Strays (n + 1) first c
  | issued {n first c issuer} : C.NotSelf pinned first c → C.Unanchored pinned c →
    issuer ∈ pool → C.isIssuer c issuer = true → Strays n false issuer → Strays (n + 1) first c

end

/-- The verdict does not depend on the order of pool and anchors, and is a pass where there is a
path. -/
def OrderFree (leaf : κ) (pool : List κ) (anchors : List TsaTrustAnchor) (time : Int) : Prop :=
  (∀ pool' anchors', pool'.Perm pool → anchors'.Perm anchors →
    (C.ChainPasses leaf pool' anchors' time ↔ C.ChainPasses leaf pool anchors time)) ∧
  (C.Path pool (C.pinnedOf anchors) time 8 true leaf → C.ChainPasses leaf pool anchors time)

end NodeCrypto

end CoolSdk
