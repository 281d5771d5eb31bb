import CoolSdk.Phala.Quote
import CoolSdk.Runtime.Json

/-!
# The shape of a receipt

The hand-written structural validator of v2 receipts. Each check returns the messages it pushes,
which name the field; a receipt is well formed when there are none. The value is one that was
parsed from JSON.
-/

namespace CoolSdk

open JsValue (Members member)

/-- `Number.isInteger`. -/
def JsNumber.isInteger : JsNumber → Bool
  | .negZero => true
  | .finite q => decide (q.den = 1)
  | _ => false

/-! ## Patterns -/

/-- A regular expression of the validator, by its source. -/
structure Pattern where
  source : String
  test : String → Bool

/-- `[0-9a-f]`. -/
def isHexChar (c : UInt8) : Bool := decide (48 ≤ c ∧ c ≤ 57) || decide (97 ≤ c ∧ c ≤ 102)

/-- `[A-Za-z0-9+/]`. -/
def isBase64Char (c : UInt8) : Bool :=
  decide (65 ≤ c ∧ c ≤ 90) || decide (97 ≤ c ∧ c ≤ 122) || decide (48 ≤ c ∧ c ≤ 57) ||
    decide (c = 43) || decide (c = 47)

/-- `[0-9A-HJKMNP-TV-Z]`. -/
def isUlidChar (c : UInt8) : Bool :=
  decide (48 ≤ c ∧ c ≤ 57) || decide (65 ≤ c ∧ c ≤ 72) || decide (74 ≤ c ∧ c ≤ 75) ||
    decide (77 ≤ c ∧ c ≤ 78) || decide (80 ≤ c ∧ c ≤ 84) || decide (86 ≤ c ∧ c ≤ 90)

/-- Base64 digits with at most two padding characters behind them; 61 is `=`. -/
def isBase64Text (digits : Bytes) : Bool :=
  [[], [61], [61, 61]].contains (digits.dropWhile isBase64Char)

def MULTIHASH : Pattern := { source := "^mh:sha256:[0-9a-f]\x7b64\x7d$", test := isMultihash }

def HEX_FIELD : Pattern where
  source := "^hex:[0-9a-f]+$"
  test value := (stripPrefix? "hex:" value).any fun hex => !hex.isEmpty && hex.all isHexChar

def B64_FIELD : Pattern where
  source := "^base64:[A-Za-z0-9+/]*=\x7b0,2\x7d$"
  test value := (stripPrefix? "base64:" value).any isBase64Text

def ULID : Pattern where
  source := "^[0-9A-HJKMNP-TV-Z]\x7b26\x7d$"
  test value := decide ((utf8 value).length = 26) && (utf8 value).all isUlidChar

/-- The pattern of an anchor's proof, which has at least one digit. -/
def PROOF : Pattern where
  source := "^[A-Za-z0-9+/]+=\x7b0,2\x7d$"
  test value := (utf8 value).head?.any isBase64Char && isBase64Text (utf8 value)

def TEE_VENDORS : List String := ["none", "intel-tdx", "amd-sev-snp", "nvidia-cc"]

def MODES : List String := ["mock", "simulated", "hardware"]

def CHANGE_KINDS : List String :=
  ["prompt", "model", "params", "policy", "dataset", "agent-permission", "tool"]

/-! ## The checker -/

namespace Checker

/-- An object, and the checks on its members. -/
def obj (path : String) (value : JsValue) (check : Members → List String) : List String :=
  match value with
  | .object ms => check ms
  | _ => [path ++ ": expected an object"]

/-- A non-empty text, of a pattern if one is given. -/
def str (path : String) (value : JsValue) (pattern : Option Pattern) : List String :=
  match value with
  | .str s =>
    if s = "" then [path ++ ": expected a non-empty string"]
    else match pattern with
      | some pattern =>
        if pattern.test s then [] else [path ++ ": does not match " ++ pattern.source]
      | none => []
  | _ => [path ++ ": expected a non-empty string"]

/-- One of the allowed texts. -/
def oneOf (path : String) (value : JsValue) (allowed : List String) : List String :=
  let bad := [path ++ ": expected one of [" ++ ", ".intercalate allowed ++ "]"]
  match value with
  | .str s => if allowed.contains s then [] else bad
  | _ => bad

/-- An integer from a bound on. -/
def int (path : String) (value : JsValue) (min : Nat) : List String :=
  let bad := [path ++ ": expected an integer ≥ " ++ toString min]
  match value with
  | .num n => if n.isInteger && !n.lt (.ofInt min) then [] else bad
  | _ => bad

/-- A list, and the checks on its items. -/
def arr (path : String) (value : JsValue) (check : List JsValue → List String) : List String :=
  match value with
  | .array xs => check xs
  | _ => [path ++ ": expected an array"]

/-- Nothing where the member is null, else the checks on it. -/
def unlessNull (value : JsValue) (check : List String) : List String :=
  if value.strictEquals .null then [] else check

/-- An exact text. -/
def exactly (value : JsValue) (text message : String) : List String :=
  if value.strictEquals (.str text) then [] else [message]

def signature (path : String) (value : JsValue) : List String :=
  obj path value fun s =>
    exactly (member s "alg") "ml-dsa-65+ed25519" (path ++ ".alg: expected ml-dsa-65+ed25519") ++
    str (path ++ ".key_id") (member s "key_id") none ++
    str (path ++ ".ml_dsa") (member s "ml_dsa") (some B64_FIELD) ++
    str (path ++ ".ed25519") (member s "ed25519") (some B64_FIELD)

def measurement (path : String) (value : JsValue) : List String :=
  obj path value fun m =>
    ["mrtd", "rtmr0", "rtmr1", "rtmr2", "rtmr3"].flatMap fun field =>
      str (path ++ "." ++ field) (member m field) (some HEX_FIELD)

def gpu (path : String) (value : JsValue) : List String :=
  obj path value fun g =>
    exactly (member g "vendor") "nvidia-cc" (path ++ ".vendor: expected nvidia-cc") ++
    str (path ++ ".gpu_model") (member g "gpu_model") none ++
    str (path ++ ".evidence_hash") (member g "evidence_hash") (some MULTIHASH) ++
    oneOf (path ++ ".verdict") (member g "verdict") ["verified", "unverified", "simulated"]

def runtime (path : String) (value : JsValue) : List String :=
  obj path value fun r =>
    let quote := member r "tee_quote"
    oneOf (path ++ ".tee_vendor") (member r "tee_vendor") TEE_VENDORS ++
    oneOf (path ++ ".mode") (member r "mode") MODES ++
    unlessNull (member r "enclave_measurement")
      (measurement (path ++ ".enclave_measurement") (member r "enclave_measurement")) ++
    unlessNull quote (str (path ++ ".tee_quote") quote (some MULTIHASH)) ++
    unlessNull (member r "gpu") (gpu (path ++ ".gpu") (member r "gpu")) ++
    -- a record may not claim hardware without carrying the quote that backs it
    if (member r "mode").strictEquals (.str "hardware") && quote.strictEquals .null then
      [path ++ ": mode 'hardware' requires a tee_quote digest"]
    else []

/-- An anchor, null or missing on a fresh receipt. -/
def anchor (value : JsValue) : List String :=
  if value.nullish then []
  else
    obj "anchor" value fun a =>
      oneOf "anchor.kind" (member a "kind") ["opentimestamps"] ++
      oneOf "anchor.chain" (member a "chain") ["bitcoin"] ++
      str "anchor.target" (member a "target") (some MULTIHASH) ++
      int "anchor.tree_size" (member a "tree_size") 1 ++
      str "anchor.proof" (member a "proof") (some PROOF) ++
      str "anchor.submitted_at" (member a "submitted_at") none ++
      arr "anchor.calendars" (member a "calendars") (fun _ => []) ++
      arr "anchor.heights" (member a "heights") fun _ => []

/-- One salted commitment of an evidence record. -/
def commitment (com : Members) (field : String) : List String :=
  let path := "record.event.commitments." ++ field
  let salt := member com (field ++ "_salt")
  if !(member com field).strictEquals .null then
    str path (member com field) (some MULTIHASH) ++ str (path ++ "_salt") salt (some HEX_FIELD)
  else
    unlessNull salt [path ++ "_salt: present without a " ++ field ++ " commitment"]

def software (value : JsValue) : List String :=
  obj "record.event.software" value fun sw =>
    str "record.event.software.name" (member sw "name") none ++
    str "record.event.software.version" (member sw "version") none ++
    unlessNull (member sw "digest")
      (str "record.event.software.digest" (member sw "digest") (some MULTIHASH))

def event (value : JsValue) : List String :=
  obj "record.event" value fun ev =>
    str "record.event.type" (member ev "type") none ++
    str "record.event.application_id" (member ev "application_id") none ++
    str "record.event.execution_id" (member ev "execution_id") none ++
    str "record.event.metadata_hash" (member ev "metadata_hash") (some MULTIHASH) ++
    str "record.event.metadata_salt" (member ev "metadata_salt") (some HEX_FIELD) ++
    (obj "record.event.commitments" (member ev "commitments") fun com =>
      ["input", "output", "state"].flatMap (commitment com)) ++
    unlessNull (member ev "software") (software (member ev "software"))

def change (value : JsValue) : List String :=
  obj "record.change" value fun ch =>
    oneOf "record.change.kind" (member ch "kind") CHANGE_KINDS ++
    str "record.change.ref" (member ch "ref") none ++
    str "record.change.environment" (member ch "environment") none ++
    unlessNull (member ch "before_hash")
      (str "record.change.before_hash" (member ch "before_hash") (some MULTIHASH) ++
        str "record.change.before_salt" (member ch "before_salt") (some HEX_FIELD)) ++
    str "record.change.after_hash" (member ch "after_hash") (some MULTIHASH) ++
    str "record.change.after_salt" (member ch "after_salt") (some HEX_FIELD) ++
    str "record.change.diff_hash" (member ch "diff_hash") (some MULTIHASH) ++
    obj "record.change.actor" (member ch "actor") fun actor =>
      str "record.change.actor.id" (member actor "id") none ++
      str "record.change.actor.method" (member actor "method") none

def record (value : JsValue) : List String :=
  obj "record" value fun record =>
    let schema := member record "schema"
    str "record.record_id" (member record "record_id") (some ULID) ++
    signature "record.signature" (member record "signature") ++
    runtime "record.runtime" (member record "runtime") ++
    (obj "record.time" (member record "time") fun time =>
      str "record.time.issued_at" (member time "issued_at") none ++
      int "record.time.seq" (member time "seq") 0) ++
    if schema.strictEquals (.str "cool.evidence.v1") then event (member record "event")
    else if schema.strictEquals (.str "cool.change.v2") then change (member record "change")
    else ["record.schema: expected 'cool.evidence.v1' or 'cool.change.v2'"]

def inclusion (value : JsValue) : List String :=
  obj "inclusion" value fun inc =>
    int "inclusion.leaf_index" (member inc "leaf_index") 0 ++
    int "inclusion.tree_size" (member inc "tree_size") 1 ++
    arr "inclusion.audit_path" (member inc "audit_path") fun hs =>
      hs.zipIdx.flatMap fun h =>
        str ("inclusion.audit_path[" ++ toString h.2 ++ "]") h.1 (some MULTIHASH)

/-- A tree head. Nothing is asked of its co-signatures. -/
def sth (value : JsValue) : List String :=
  obj "sth" value fun s =>
    str "sth.log_id" (member s "log_id") none ++
    int "sth.tree_size" (member s "tree_size") 1 ++
    str "sth.root_hash" (member s "root_hash") (some MULTIHASH) ++
    str "sth.timestamp" (member s "timestamp") none ++
    signature "sth.signature" (member s "signature") ++
    arr "sth.witnesses" (member s "witnesses") fun _ => []

def quoteBody (value : JsValue) : List String :=
  obj "attestation.quote.body" value fun body =>
    oneOf "attestation.quote.body.vendor" (member body "vendor") TEE_VENDORS ++
    measurement "attestation.quote.body.measurement" (member body "measurement") ++
    str "attestation.quote.body.report_data" (member body "report_data") (some MULTIHASH) ++
    str "attestation.quote.body.tcb_status" (member body "tcb_status") none ++
    str "attestation.quote.body.app_id" (member body "app_id") none ++
    str "attestation.quote.body.instance_id" (member body "instance_id") none ++
    str "attestation.quote.body.issued_at" (member body "issued_at") none

def quote (value : JsValue) : List String :=
  obj "attestation.quote" value fun q =>
    oneOf "attestation.quote.format" (member q "format")
      ["dstack.tdx.v4", "dstack.sevsnp.v1", "nvidia.cc.v1", "cool.sim.v1"] ++
    oneOf "attestation.quote.root" (member q "root")
      ["intel-dcap", "amd-kds", "nvidia-nras", "cool-sim-root", "none"] ++
    unlessNull (member q "signature")
      (signature "attestation.quote.signature" (member q "signature")) ++
    unlessNull (member q "raw") (str "attestation.quote.raw" (member q "raw") (some B64_FIELD)) ++
    quoteBody (member q "body")

def attestation (value : JsValue) : List String :=
  obj "attestation" value fun a =>
    oneOf "attestation.mode" (member a "mode") MODES ++
    str "attestation.note" (member a "note") none ++
    unlessNull (member a "key_binding")
      (str "attestation.key_binding" (member a "key_binding") (some MULTIHASH)) ++
    unlessNull (member a "expected_measurement")
      (measurement "attestation.expected_measurement" (member a "expected_measurement")) ++
    unlessNull (member a "quote") (quote (member a "quote"))

def keyDirectory (value : JsValue) : List String :=
  obj "key_directory" value fun directory =>
    (if directory.isEmpty then ["key_directory: must carry at least one key"] else []) ++
    directory.flatMap fun e =>
      obj ("key_directory." ++ e.1) e.2 fun entry =>
        str ("key_directory." ++ e.1 ++ ".ml_dsa_pub") (member entry "ml_dsa_pub")
          (some B64_FIELD) ++
        str ("key_directory." ++ e.1 ++ ".ed25519_pub") (member entry "ed25519_pub")
          (some B64_FIELD)

end Checker

open Checker in
/-- Everything that is wrong with the shape of a receipt. -/
def validateReceiptV2Shape (value : JsValue) : List String :=
  obj "(root)" value fun root =>
    let inclusion := member root "inclusion"
    let sth := member root "sth"
    exactly (member root "schema") "cool.receipt.v2" "(root).schema: expected 'cool.receipt.v2'" ++
    anchor (member root "anchor") ++
    str "(root).binding_hash" (member root "binding_hash") (some MULTIHASH) ++
    record (member root "record") ++
    -- they travel together or not at all
    (if inclusion.strictEquals .null != sth.strictEquals .null then
      ["(root): inclusion and sth must both be present or both absent"]
    else []) ++
    unlessNull inclusion (Checker.inclusion inclusion) ++
    unlessNull sth (Checker.sth sth) ++
    attestation (member root "attestation") ++
    keyDirectory (member root "key_directory")

end CoolSdk
