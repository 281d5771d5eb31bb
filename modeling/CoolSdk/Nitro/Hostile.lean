import CoolSdk.Nitro.Attestation
import CoolSdk.Phala.NeverThrows

/-!
# Hostile documents

Whatever a document holds, the verifier reports on it, with one exception: the instant at which
certificates are judged is formatted as a date before anything is verified, and a timestamp may be
out of the range of dates.
-/

namespace CoolSdk.Nitro

section

variable {κ : Type} {N : NitroHost κ} {H : Host} {o : VerifyNitroOptions}

/-- Both halves of a receipt key decode, and the Ed25519 half is 32 bytes long. -/
structure ReceiptKey.WellFormed (H : Host) (key : ReceiptKey) : Prop where
  mlDsa : ∃ pub, fromBase64Field H key.entry.mlDsaPub = .ok pub
  ed25519 : ∃ pub, fromBase64Field H key.entry.ed25519Pub = .ok pub ∧ pub.length = 32

variable (hcbor : ∀ v, v.plain = true → ∃ b, H.canonicalCbor v = .ok b)
  (hkey : ∀ key ∈ o.receiptKey, key.WellFormed H)
include hcbor

theorem keyBindingUserData_ok {key : ReceiptKey} (h : key.WellFormed H) :
    ∃ digest, keyBindingUserData H key = .ok digest := by
  obtain ⟨ed25519, hed25519, -⟩ := h.ed25519
  refine exists_bind h.mlDsa fun mlDsa _ => exists_bind ⟨ed25519, hed25519⟩ fun _ _ => ?_
  exact exists_bind (hcbor _ rfl) fun body _ => ⟨_, rfl⟩

include hkey

theorem verifyBinding_ok (doc : Decoded) : ∃ checks, verifyBinding H doc o = .ok checks := by
  unfold verifyBinding
  cases hreceipt : o.receiptKey with
  | none => exact ⟨_, rfl⟩
  | some key =>
    have hwell := hkey key hreceipt
    refine exists_bind (keyBindingUserData_ok hcbor hwell) fun expected _ => ?_
    split_ifs
    · exact ⟨_, rfl⟩
    · obtain ⟨pub, hpub, hlength⟩ := hwell.ed25519
      refine exists_bind ⟨pub, hpub⟩ fun pub' hpub' => ?_
      rw [hpub] at hpub'
      cases hpub'
      refine exists_bind ⟨_, if_neg (not_not.mpr hlength)⟩ fun spki _ => ⟨_, rfl⟩

theorem claimChecks_ok (verified : Bool) (doc : Decoded) (now : JsNumber) :
    ∃ result, claimChecks H verified doc o now = .ok result := by
  cases verified with
  | false => exact ⟨_, rfl⟩
  | true => exact exists_bind (verifyBinding_ok hcbor hkey doc) fun bind _ => ⟨_, rfl⟩

omit hcbor hkey in
/-- A document is looked at exactly where the instant at which it is judged is a date. -/
theorem authenticate_ok_iff {bundle : NitroTrustBundle} {doc : Decoded} {now : JsNumber} :
    (∃ a, authenticate N H bundle o doc now = .ok a) ↔
      (judgedAt o doc now).timeClip.isSome = true := by
  have hlabel : (∃ label, certLabel o doc now = .ok label) ↔
      (judgedAt o doc now).timeClip.isSome = true := by
    unfold certLabel judgedAt
    cases o.certificateTime with
    | attestationTimestamp =>
      dsimp only
      rw [toISOString]
      cases doc.timestampMs.timeClip with
      | none =>
        refine iff_of_false ?_ Bool.false_ne_true
        rintro ⟨label, h⟩
        cases h
      | some t => exact iff_of_true ⟨_, rfl⟩ rfl
    | now =>
      dsimp only
      rw [toISOString]
      cases now.timeClip with
      | none =>
        refine iff_of_false ?_ Bool.false_ne_true
        rintro ⟨label, h⟩
        cases h
      | some t => exact iff_of_true ⟨_, rfl⟩ rfl
  rw [← hlabel]
  constructor
  · rintro ⟨a, ha⟩
    exact (bind_eq_ok.mp ha).imp fun label h => h.1
  · intro hok
    exact exists_bind hok fun label _ => ⟨_, rfl⟩

/-- The verifier reports on a document exactly where it does not decode, or the instant at which
its certificates are judged is in the range of dates. -/
theorem attestation_reports_iff (raw : Bytes) :
    (∃ result, verifyNitroAttestation N H raw o = .ok result) ↔
      ∀ doc, decodeDocument N H raw (o.maxBytes.getD (16 * 1024)) = .ok doc →
        (judgedAt o doc (o.now.getD N.dateNow)).timeClip.isSome = true := by
  unfold verifyNitroAttestation
  cases hdecoded : decodeDocument N H raw (o.maxBytes.getD (16 * 1024)) with
  | error e => exact iff_of_true ⟨_, rfl⟩ fun doc h => by cases h
  | ok doc =>
    constructor
    · rintro ⟨result, h⟩ doc' ⟨⟩
      obtain ⟨a, ha, -⟩ := bind_eq_ok.mp h
      exact authenticate_ok_iff.mp ⟨a, ha⟩
    · intro h
      refine exists_bind (authenticate_ok_iff.mpr (h doc rfl)) fun a _ => ?_
      exact exists_bind (claimChecks_ok hcbor hkey _ doc _) fun claims _ => ⟨_, rfl⟩

end

end CoolSdk.Nitro

namespace CoolSdk.Reference

open Nitro

/-- The protected header that names ES384. -/
def es384Header : Bytes := [0xa1, 0x01, 0x38, 0x22]

/-- The payload of a document with one register and a timestamp. -/
def nitroPayload (timestampMs : Nat) : Bytes :=
  let text (s : String) := Cbor.encode (.text (utf8 s))
  Cbor.head 5 6 ++ text "module_id" ++ text "i-1" ++ text "digest" ++ text "SHA384" ++
    text "timestamp" ++ Cbor.encode (.unsigned timestampMs) ++
    text "pcrs" ++ Cbor.head 5 1 ++ Cbor.encode (.unsigned 0) ++
      Cbor.encode (.bytes (List.replicate 48 1)) ++
    text "certificate" ++ Cbor.encode (.bytes [1]) ++
    text "cabundle" ++ Cbor.encode (.array [.bytes [2]])

/-- The document with this payload and a signature of zeros. -/
def nitroDocument (timestampMs : Nat) : Bytes :=
  Cbor.encode (.array [.bytes es384Header, .map [], .bytes (nitroPayload timestampMs),
    .bytes (List.replicate 96 0)])

/-- A host that decodes the parts of the document with one timestamp. -/
def nitroHost (timestampMs : Nat) : NitroHost Unit where
  decode bytes :=
    if bytes = nitroDocument timestampMs then
      .ok (.array [.bytes es384Header, .map [], .bytes (nitroPayload timestampMs),
        .bytes (List.replicate 96 0)])
    else if bytes = es384Header then .ok (.map [(.num (.ofInt 1), .num (.ofInt (-35)))])
    else if bytes = nitroPayload timestampMs then
      .ok (.map [(.text "module_id", .text "i-1"), (.text "digest", .text "SHA384"),
        (.text "timestamp", .num (.ofInt timestampMs)),
        (.text "pcrs", .map [(.num (.ofInt 0), .bytes (List.replicate 48 1))]),
        (.text "certificate", .bytes [1]), (.text "cabundle", .array [.bytes [2]])])
    else .error "unexpected end of input"
  certificate _ := .error "not a certificate"
  validFrom _ := ""
  validTo _ := ""
  ca _ := false
  checkIssued _ _ := false
  verify _ _ := .ok false
  publicKey _ := .error "no key"
  cryptoVerify _ _ _ := .ok false
  AWS_NITRO_TRUST_BUNDLE := { id := "aws", version := "1", roots := [] }
  dateNow := .ofInt 1700000000000

/-- Validity is judged at the timestamp of a document. -/
def archived : VerifyNitroOptions := { certificateTime := .attestationTimestamp }

theorem attestation_reports_archived :
    ∃ result, verifyNitroAttestation (nitroHost 1700000000000) totalHost
      (nitroDocument 1700000000000) archived = .ok result := by
  have hwell : ∀ key ∈ archived.receiptKey, key.WellFormed totalHost := by
    rintro key hkey
    cases hkey
  refine (attestation_reports_iff totalHost_encodes hwell _).mpr fun doc hdoc => ?_
  have htimestamp : (decodeDocument (nitroHost 1700000000000) totalHost
      (nitroDocument 1700000000000) (16 * 1024)).toOption.map Decoded.timestampMs =
        some (.ofInt 1700000000000) := by decide +kernel
  have hdoc' : (decodeDocument (nitroHost 1700000000000) totalHost
      (nitroDocument 1700000000000) (16 * 1024)) = .ok doc := hdoc
  rw [hdoc'] at htimestamp
  change doc.timestampMs.timeClip.isSome = true
  rw [Option.some.inj htimestamp]
  decide +kernel

/-- The largest safe integer is a timestamp that a document may have, and no date. -/
theorem largest_timestamp_throws :
    ¬∃ result, verifyNitroAttestation (nitroHost 9007199254740991) totalHost
      (nitroDocument 9007199254740991) archived = .ok result := by
  have hthrows : (verifyNitroAttestation (nitroHost 9007199254740991) totalHost
      (nitroDocument 9007199254740991) archived).isOk = false := by decide +kernel
  rintro ⟨result, hresult⟩
  rw [hresult] at hthrows
  cases hthrows

end CoolSdk.Reference
