import CoolSdk.Core.Cbor
import CoolSdk.Core.Fallible
import CoolSdk.Runtime.Doubles
import CoolSdk.Runtime.Host

/-!
# Nitro attestation documents

A document is a COSE_Sign1 array whose payload is a map of known fields. Whatever does not have
this form is refused with a reason; what has it is decoded field by field.
-/

namespace CoolSdk.Nitro

/-- A value that the CBOR decoder builds. -/
inductive CborValue
  | undefined
  | null
  | bool (value : Bool)
  | num (value : JsNumber)
  | bigint (value : Int)
  | text (value : String)
  | bytes (value : Bytes)
  | array (items : List CborValue)
  | map (entries : List (CborValue × CborValue))
  | tag (number : Nat) (contents : CborValue)
  /-- Any other object, by its text. -/
  | other (text : String)

/-- The public key of a certificate, as far as it is looked at. -/
structure NodeKey where
  asymmetricKeyType : Option String
  namedCurve : Option String
  deriving DecidableEq, Repr

structure NitroTrustRoot where
  name : String
  der : Bytes
  fingerprintSha256 : String
  deriving DecidableEq, Repr

structure NitroTrustBundle where
  id : String
  version : String
  roots : List NitroTrustRoot
  expiresAt : Option String := none
  deriving DecidableEq, Repr

/-- The CBOR decoder, `node:crypto`, and the defaults of the package. -/
structure NitroHost (κ : Type) where
  /-- `decode` with maps as maps and duplicate keys rejected. -/
  decode : Bytes → Except String CborValue
  /-- `new X509Certificate(der)`. -/
  certificate : Bytes → Except String κ
  validFrom : κ → String
  validTo : κ → String
  ca : κ → Bool
  /-- `c.checkIssued(d)`. -/
  checkIssued : κ → κ → Bool
  /-- `c.verify(d.publicKey)`. -/
  verify : κ → κ → Except String Bool
  publicKey : κ → Except String NodeKey
  /-- ECDSA with SHA-384 under the key of a certificate: data, certificate and signature. -/
  cryptoVerify : Bytes → κ → Bytes → Except String Bool
  AWS_NITRO_TRUST_BUNDLE : NitroTrustBundle
  /-- `Date.now()`. -/
  dateNow : JsNumber

namespace CborValue

/-- Whether `join` leaves a value out. -/
def nullish : CborValue → Bool
  | undefined | null => true
  | _ => false

/-- `map.get(key)` for a text. -/
def get (entries : List (CborValue × CborValue)) (name : String) : CborValue :=
  match entries.find? fun e => match e.1 with
    | text key => decide (key = name)
    | _ => false with
  | some e => e.2
  | none => undefined

/-- `map.get(key)` for a number, if the map has it. -/
def getNumber? (entries : List (CborValue × CborValue)) (key : Int) : Option CborValue :=
  (entries.find? fun e => match e.1 with
    | num n => n.strictEq (.ofInt key)
    | _ => false).map Prod.snd

section

variable (H : Host)

mutual

/-- `String(value)`. -/
def toText : CborValue → String
  | undefined => "undefined"
  | null => "null"
  | bool b => if b then "true" else "false"
  | num n => H.numberText n
  | bigint n => toString n
  | text s => s
  | bytes b => ",".intercalate (b.map fun byte => toString byte.toNat)
  | array xs => ",".intercalate (itemTexts xs)
  | map _ => "[object Map]"
  | tag _ _ => "[object Object]"
  | other s => s

def itemTexts : List CborValue → List String
  | [] => []
  | x :: xs => (if x.nullish then "" else toText x) :: itemTexts xs

end

end

end CborValue

/-- What the structure check reports. -/
structure Malformed where
  reason : String
  detail : String
  deriving DecidableEq, Repr

def ES384 : Int := -35

def KNOWN_FIELDS : List String :=
  ["module_id", "digest", "timestamp", "pcrs", "certificate", "cabundle", "public_key", "user_data",
    "nonce"]

structure Decoded where
  protectedBytes : Bytes
  payloadBytes : Bytes
  signature : Bytes
  moduleId : String
  timestampMs : JsNumber
  pcrs : List (Nat × Bytes)
  certificate : Bytes
  cabundle : List Bytes
  publicKey : Option Bytes
  userData : Option Bytes
  nonce : Option Bytes
  deriving DecidableEq, Repr

/-! ## Fields -/

def optionalBytes (payload : List (CborValue × CborValue)) (field : String) :
    Except Malformed (Option Bytes) :=
  match CborValue.get payload field with
  | .undefined | .null => .ok none
  | .bytes b =>
    if 1024 < b.length then .error ⟨"invalid_field", field ++ " must be bytes of at most 1024"⟩
    else .ok (some b)
  | _ => .error ⟨"invalid_field", field ++ " must be bytes of at most 1024"⟩

/-- The timestamp, a number or a `bigint` rounded to one. -/
def timestampOf (payload : List (CborValue × CborValue)) : Except Malformed JsNumber :=
  let timestampMs : JsNumber := match CborValue.get payload "timestamp" with
    | .bigint n => JsNumber.round n
    | .num n => n
    | _ => .nan
  if !timestampMs.isSafeInteger || timestampMs.le (.ofInt 0) then
    .error ⟨"invalid_field", "timestamp must be a positive integer (ms since epoch)"⟩
  else .ok timestampMs

/-- The index of a register, if it is one. -/
def indexOf? : CborValue → Option Nat
  | .num .negZero => some 0
  | .num (.finite q) => if q.den = 1 ∧ 0 ≤ q.num ∧ q.num ≤ 31 then some q.num.toNat else none
  | _ => none

section

variable {κ : Type} (N : NitroHost κ) (H : Host)

/-- One turn of the loop over the registers. -/
def pcrStep (pcrs : List (Nat × Bytes)) (e : CborValue × CborValue) :
    Except Malformed (List (Nat × Bytes)) :=
  match indexOf? e.1 with
  | none => .error ⟨"invalid_field", "PCR index " ++ e.1.toText H ++ " is outside 0..31"⟩
  | some index =>
    match e.2 with
    | .bytes b =>
      if b.length ≠ 48 then
        .error ⟨"invalid_field", "PCR" ++ toString index ++ " must be 48 bytes for SHA384"⟩
      else .ok (Entries.set pcrs index b)
    | _ => .error ⟨"invalid_field", "PCR" ++ toString index ++ " must be 48 bytes for SHA384"⟩

def pcrsOf (payload : List (CborValue × CborValue)) : Except Malformed (List (Nat × Bytes)) :=
  match CborValue.get payload "pcrs" with
  | .map (e :: entries) => (e :: entries).foldlM (pcrStep H) []
  | _ => .error ⟨"invalid_field", "pcrs must be a non-empty map"⟩

/-- A certificate of a document, if it is of a size that one may have. -/
def certificateBytes? : CborValue → Option Bytes
  | .bytes b => if 1 ≤ b.length ∧ b.length ≤ 1024 then some b else none
  | _ => none

def certificateOf (payload : List (CborValue × CborValue)) : Except Malformed Bytes :=
  match certificateBytes? (CborValue.get payload "certificate") with
  | some b => .ok b
  | none => .error ⟨"invalid_field", "certificate must be 1..1024 bytes of DER"⟩

def cabundleOf (payload : List (CborValue × CborValue)) : Except Malformed (List Bytes) :=
  match CborValue.get payload "cabundle" with
  | .array (first :: rest) => (first :: rest).mapM fun cert =>
    match certificateBytes? cert with
    | some b => .ok b
    | none => .error ⟨"invalid_field", "every cabundle entry must be 1..1024 bytes of DER"⟩
  | _ => .error ⟨"invalid_field", "cabundle must be a non-empty array"⟩

/-! ## Structure -/

/-- `decode`, with what it throws taken for a malformed part. -/
def decodeCbor (what : String) (bytes : Bytes) : Except Malformed CborValue :=
  match N.decode bytes with
  | .ok value => .ok value
  | .error message => .error ⟨"malformed_cbor", what ++ " did not decode: " ++ message⟩

/-- What is inside the tag of a COSE_Sign1, if there is one. -/
def untagged : CborValue → Except Malformed CborValue
  | .tag number contents =>
    if number ≠ 18 then
      .error ⟨"unexpected_tag", "CBOR tag " ++ toString number ++ " is not COSE_Sign1 (18)"⟩
    else .ok contents
  | value => .ok value

/-- Protected header, payload and signature. -/
def coseSign1 (outer : CborValue) : Except Malformed (Bytes × Bytes × Bytes) :=
  match outer with
  | .array [header, unprotected, payload, signature] =>
    match header, payload, signature with
    | .bytes header, .bytes payload, .bytes signature =>
      match unprotected with
      | .map [] => .ok (header, payload, signature)
      | _ => .error ⟨"unexpected_header", "the unprotected header must be empty"⟩
    | _, _, _ =>
      .error ⟨"not_cose_sign1", "protected header, payload and signature must be byte strings"⟩
  | _ => .error ⟨"not_cose_sign1", "COSE_Sign1 must be a 4-element array"⟩

/-- The protected header names exactly the algorithm. -/
def checkHeader (header : CborValue) : Except Malformed Unit :=
  match header with
  | .map [entry] =>
    match CborValue.getNumber? [entry] 1 with
    | none => .error ⟨"unexpected_header", "the protected header must contain exactly the algorithm"⟩
    | some alg =>
      match alg with
      | .num n => if n.strictEq (.ofInt ES384) then .ok ()
        else .error ⟨"unsupported_algorithm",
          "algorithm " ++ alg.toText H ++ " is not ES384 (-35)"⟩
      | _ => .error ⟨"unsupported_algorithm",
          "algorithm " ++ alg.toText H ++ " is not ES384 (-35)"⟩
  | _ => .error ⟨"unexpected_header", "the protected header must contain exactly the algorithm"⟩

/-- The entries of a payload, all of known names. -/
def claimEntries (payload : CborValue) : Except Malformed (List (CborValue × CborValue)) :=
  match payload with
  | .map entries =>
    match entries.find? fun e => match e.1 with
      | .text name => !KNOWN_FIELDS.contains name
      | _ => true with
    | some e => .error ⟨"unexpected_field", "unexpected payload field " ++ e.1.toText H⟩
    | none => .ok entries
  | _ => .error ⟨"invalid_payload", "payload must be a map"⟩

def moduleIdOf (payload : List (CborValue × CborValue)) : Except Malformed String :=
  match CborValue.get payload "module_id" with
  | .text name => if name = "" then .error ⟨"invalid_field", "module_id must be text"⟩ else .ok name
  | _ => .error ⟨"invalid_field", "module_id must be text"⟩

def checkDigest (payload : List (CborValue × CborValue)) : Except Malformed Unit :=
  match CborValue.get payload "digest" with
  | .text name => if name = "SHA384" then .ok ()
    else .error ⟨"invalid_field", "digest must be \"SHA384\""⟩
  | _ => .error ⟨"invalid_field", "digest must be \"SHA384\""⟩

/-- The fields of a payload. -/
def decodeClaims (protectedBytes payloadBytes signature : Bytes)
    (payload : List (CborValue × CborValue)) : Except Malformed Decoded := do
  let moduleId ← moduleIdOf payload
  checkDigest payload
  let timestampMs ← timestampOf payload
  let pcrs ← pcrsOf H payload
  let certificate ← certificateOf payload
  let cabundle ← cabundleOf payload
  let publicKey ← optionalBytes payload "public_key"
  let userData ← optionalBytes payload "user_data"
  let nonce ← optionalBytes payload "nonce"
  return {
    protectedBytes, payloadBytes, signature, moduleId, timestampMs, pcrs, certificate, cabundle
    publicKey, userData, nonce }

def decodeDocument (raw : Bytes) (maxBytes : Nat) : Except Malformed Decoded := do
  if raw = [] ∨ maxBytes < raw.length then
    throw ⟨"oversized_or_empty", "document is " ++ toString raw.length ++
      " bytes; accepted range is 1.." ++ toString maxBytes⟩
  let outer ← decodeCbor N "outer CBOR" raw
  let outer ← untagged outer
  let (protectedBytes, payloadBytes, signature) ← coseSign1 outer
  let header ← decodeCbor N "protected header" protectedBytes
  checkHeader H header
  if signature.length ≠ 96 then
    throw ⟨"invalid_signature_encoding",
      "ES384 signature must be 96 bytes, got " ++ toString signature.length⟩
  let payload ← decodeCbor N "payload" payloadBytes
  let payload ← claimEntries H payload
  decodeClaims H protectedBytes payloadBytes signature payload

end

end CoolSdk.Nitro
