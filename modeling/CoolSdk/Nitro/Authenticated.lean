import CoolSdk.Nitro.Hostile
import Mathlib.Data.List.Chain

/-!
# Authenticated attestation

What a document has where the verifier's overall status is a pass: a chain of certificates from a
pinned root, a signature over the bytes that the claims were decoded from, and claims that the
policy, the receipt key and the freshness rule ask for.
-/

namespace CoolSdk.Nitro

open Anchor (toLowerCase)

section

variable {κ : Type} (N : NitroHost κ) (H : Host)

/-- A certificate is valid at an instant. -/
def ValidAt (time : JsNumber) (cert : κ) : Prop :=
  (dateNumber H (N.validFrom cert)).le time = true ∧ time.le (dateNumber H (N.validTo cert)) = true

/-- A CA has issued and signed a certificate. -/
def IssuedBy (parent cert : κ) : Prop :=
  N.ca parent = true ∧ N.checkIssued cert parent = true ∧ N.verify cert parent = .ok true

/-- Certificates that are valid, each issued by the one before it, the last no CA. -/
structure Chained (time : JsNumber) (chain : List κ) : Prop where
  valid : ∀ cert ∈ chain, ValidAt N H time cert
  issued : chain.IsChain (IssuedBy N)
  leaf : ∀ leaf ∈ chain.getLast?, N.ca leaf = false

/-- The signature of a document verifies under a P-384 key over its two signed parts. -/
def Signed (doc : Decoded) : Prop :=
  ∃ leaf key, N.certificate doc.certificate = .ok leaf ∧ N.publicKey leaf = .ok key ∧
    key.asymmetricKeyType = some "ec" ∧ key.namedCurve = some "secp384r1" ∧
    N.cryptoVerify (sigStructure doc) leaf doc.signature = .ok true

/-- The signed parts of a document are those of the bytes, and its claims are those of its payload
bytes, under a header that names ES384. -/
structure DecodedFromSigned (raw : Bytes) (doc : Decoded) : Prop where
  parts : ∃ outer inner, N.decode raw = .ok outer ∧ untagged outer = .ok inner ∧
    coseSign1 inner = .ok (doc.protectedBytes, doc.payloadBytes, doc.signature)
  header : ∃ header, N.decode doc.protectedBytes = .ok header ∧ checkHeader H header = .ok ()
  claims : ∃ payload, N.decode doc.payloadBytes = .ok (.map payload) ∧
    decodeClaims H doc.protectedBytes doc.payloadBytes doc.signature payload = .ok doc

/-- The registers of a document are those of a policy, and not of a debug enclave. -/
structure MatchesPolicy (doc : Decoded) (policy : NitroPcrPolicy) : Prop where
  pinned : ∀ i ∈ [0, 1, 2], ∃ expected actual, Entries.get policy.pcrs i = some expected ∧
    Entries.get doc.pcrs i = some actual ∧ toHex actual = toLowerCase expected
  equal : ∀ e ∈ policy.pcrs, ∃ actual, Entries.get doc.pcrs e.1 = some actual ∧
    toHex actual = toLowerCase e.2
  notDebug : ∃ i ∈ [0, 1, 2], ∃ actual, Entries.get doc.pcrs i = some actual ∧
    ∃ byte ∈ actual, byte ≠ 0
  pcr8 : policy.pcr8 = "not_applicable" ∨ ∃ actual, Entries.get doc.pcrs 8 = some actual ∧
    toHex actual = toLowerCase policy.pcr8

/-- A document binds a receipt key. -/
structure BindsKey (doc : Decoded) (policy : NitroPcrPolicy) (key : ReceiptKey) : Prop where
  userData : ∃ digest, keyBindingUserData H key = .ok digest ∧ doc.userData = some digest
  publicKey : policy.publicKey = .receiptEd25519 → ∃ pub spki,
    fromBase64Field H key.entry.ed25519Pub = .ok pub ∧ ed25519Spki pub = .ok spki ∧
      doc.publicKey = some spki

/-- A document is fresh under a rule: it carries the challenge and the ledger has not seen it, or
it is neither of the future nor too old. -/
def FreshUnder (doc : Decoded) (now : JsNumber) : NitroFreshness → Prop
  | .nonce expected ledger => doc.nonce = some expected ∧
    ∀ seen ∈ ledger, toHex expected ∉ seen
  | .timestampWindow maxAgeMs clockSkewMs =>
    (now.subRounded doc.timestampMs).lt (clockSkewMs.getD (.ofInt 60000)).neg = false ∧
      maxAgeMs.lt (now.subRounded doc.timestampMs) = false

/-- A bundle is not due for review. -/
def Unexpired (bundle : NitroTrustBundle) (now : JsNumber) : Prop :=
  ∀ expiresAt, nonEmpty bundle.expiresAt = some expiresAt →
    (dateNumber H expiresAt).lt now = false

/-- What a document attests to under a bundle, a policy, a receipt key and a freshness rule. -/
structure Attests (raw : Bytes) (bundle : NitroTrustBundle) (policy : NitroPcrPolicy)
    (key : ReceiptKey) (rule : NitroFreshness) (time now : JsNumber) (doc : Decoded) : Prop where
  root : ∃ root ∈ bundle.roots, doc.cabundle.head? = some root.der
  unexpired : Unexpired H bundle now
  chain : ∃ chain, (doc.cabundle ++ [doc.certificate]).mapM N.certificate = .ok chain ∧
    Chained N H time chain
  signature : Signed N doc
  decoded : DecodedFromSigned N H raw doc
  registers : MatchesPolicy doc policy
  binding : BindsKey H doc policy key
  fresh : FreshUnder doc now rule

end

section

variable {κ : Type} {N : NitroHost κ} {H : Host} {o : VerifyNitroOptions} {doc : Decoded}
  {bundle : NitroTrustBundle} {time now : JsNumber}

/-! ## Decoding -/

theorem decodeClaims_parts {protectedBytes payloadBytes signature : Bytes}
    {payload : List (CborValue × CborValue)}
    (h : decodeClaims H protectedBytes payloadBytes signature payload = .ok doc) :
    doc.protectedBytes = protectedBytes ∧ doc.payloadBytes = payloadBytes ∧
      doc.signature = signature ∧ cabundleOf payload = .ok doc.cabundle := by
  obtain ⟨moduleId, -, h⟩ := bind_eq_ok.mp h
  obtain ⟨_, -, h⟩ := bind_eq_ok.mp h
  obtain ⟨timestampMs, -, h⟩ := bind_eq_ok.mp h
  obtain ⟨pcrs, -, h⟩ := bind_eq_ok.mp h
  obtain ⟨certificate, -, h⟩ := bind_eq_ok.mp h
  obtain ⟨cabundle, hcabundle, h⟩ := bind_eq_ok.mp h
  obtain ⟨publicKey, -, h⟩ := bind_eq_ok.mp h
  obtain ⟨userData, -, h⟩ := bind_eq_ok.mp h
  obtain ⟨nonce, -, h⟩ := bind_eq_ok.mp h
  cases h
  exact ⟨rfl, rfl, rfl, hcabundle⟩

theorem cabundleOf_ne_nil {payload : List (CborValue × CborValue)} {cabundle : List Bytes}
    (h : cabundleOf payload = .ok cabundle) : cabundle ≠ [] := by
  unfold cabundleOf at h
  split at h
  · rename_i first rest _
    obtain ⟨b, hb, -⟩ := exists_mem_of_mapM h (List.mem_cons_self (a := first) (l := rest))
    exact List.ne_nil_of_mem hb
  · cases h

theorem claimEntries_spec {payload : CborValue} {entries : List (CborValue × CborValue)}
    (h : claimEntries H payload = .ok entries) : payload = .map entries := by
  cases payload with
  | map entries' =>
    rw [claimEntries] at h
    split at h
    · cases h
    · cases h
      rfl
  | _ => cases h

/-- The claims of a document that decodes are those of its signed payload. -/
theorem decodeDocument_spec {raw : Bytes} {maxBytes : Nat}
    (h : decodeDocument N H raw maxBytes = .ok doc) :
    DecodedFromSigned N H raw doc := by
  have hcbor : ∀ {what : String} {bytes : Bytes} {value : CborValue},
      decodeCbor N what bytes = .ok value → N.decode bytes = .ok value := by
    intro what bytes value hvalue
    rw [decodeCbor] at hvalue
    split at hvalue
    · rename_i value' hdecoded
      cases hvalue
      exact hdecoded
    · cases hvalue
  rw [decodeDocument] at h
  split_ifs at h with hsize
  · cases h
  · obtain ⟨outer, houter, h⟩ := bind_eq_ok.mp h
    obtain ⟨inner, hinner, h⟩ := bind_eq_ok.mp h
    obtain ⟨⟨protectedBytes, payloadBytes, signature⟩, hparts, h⟩ := bind_eq_ok.mp h
    obtain ⟨header, hheader, h⟩ := bind_eq_ok.mp h
    obtain ⟨_, hes384, h⟩ := bind_eq_ok.mp h
    dsimp only at h
    split_ifs at h with hlength
    · cases h
    · obtain ⟨payload, hpayload, h⟩ := bind_eq_ok.mp h
      obtain ⟨entries, hentries, hclaims⟩ := bind_eq_ok.mp h
      obtain rfl := claimEntries_spec hentries
      obtain ⟨hprotected, hbytes, hsignature, -⟩ := decodeClaims_parts hclaims
      subst hprotected hbytes hsignature
      exact ⟨⟨outer, inner, hcbor houter, hinner, hparts⟩, ⟨header, hcbor hheader, hes384⟩,
        ⟨entries, hcbor hpayload, hclaims⟩⟩

/-! ## Checks -/

theorem verifyRoot_pass (h : (verifyRoot H bundle doc now).1.status = .pass) :
    (∃ root ∈ bundle.roots, root.der = doc.cabundle.headD []) ∧ Unexpired H bundle now := by
  unfold verifyRoot at h
  split at h
  · cases h
  · rename_i root hroot
    have hder := List.find?_some hroot
    refine ⟨⟨root, List.mem_of_find?_eq_some hroot, (bytesEqual_iff _ _).mp hder⟩, ?_⟩
    intro expiresAt hexpires
    rw [hexpires] at h
    dsimp only at h
    split_ifs at h with hstale
    · cases h
    · exact Bool.eq_false_iff.mpr hstale

/-- The loop over a chain finds no problem exactly where all are valid and each was issued by the
one before it. -/
theorem chainProblem_none {label : String} {i : Nat} {parent : Option κ} {certs : List κ}
    (h : chainProblem N H time label i parent certs = none) :
    (∀ cert ∈ certs, ValidAt N H time cert) ∧ (parent.toList ++ certs).IsChain (IssuedBy N) := by
  induction certs generalizing i parent with
  | nil =>
    refine ⟨List.forall_mem_nil _, ?_⟩
    cases parent with
    | none => exact .nil
    | some parent => exact .singleton parent
  | cons cert rest ih =>
    unfold chainProblem at h
    split_ifs at h with hfrom hto
    · have hvalid : ValidAt N H time cert := ⟨by simpa using hfrom, by simpa using hto⟩
      cases parent with
      | none =>
        obtain ⟨hrest, hchain⟩ := ih h
        exact ⟨List.forall_mem_cons.mpr ⟨hvalid, hrest⟩, hchain⟩
      | some parent =>
        dsimp only at h
        split_ifs at h with hca hissued hverify
        · obtain ⟨hrest, hchain⟩ := ih h
          refine ⟨List.forall_mem_cons.mpr ⟨hvalid, hrest⟩, .cons_cons ⟨?_, ?_, ?_⟩ hchain⟩
          · simpa using hca
          · simpa using hissued
          · cases hverified : N.verify cert parent with
            | error message =>
              rw [hverified] at hverify
              exact absurd rfl hverify
            | ok verified =>
              rw [hverified] at hverify
              cases verified with
              | false => exact absurd rfl hverify
              | true => rfl

/-- Every problem of a chain is a failure. -/
theorem chainProblem_fail {label : String} {i : Nat} {parent : Option κ} {certs : List κ}
    {problem : Check} (h : chainProblem N H time label i parent certs = some problem) :
    problem.status = .fail := by
  induction certs generalizing i parent with
  | nil => cases h
  | cons cert rest ih =>
    unfold chainProblem at h
    split_ifs at h
    · cases h
      rfl
    · cases h
      rfl
    · cases parent with
      | none => exact ih h
      | some parent =>
        dsimp only at h
        split_ifs at h
        · cases h
          rfl
        · cases h
          rfl
        · cases h
          rfl
        · exact ih h

theorem verifyChain_pass {label : String} (h : (verifyChain N H doc time label).status = .pass) :
    ∃ chain, (doc.cabundle ++ [doc.certificate]).mapM N.certificate = .ok chain ∧
      Chained N H time chain := by
  unfold verifyChain at h
  split at h
  · cases h
  · rename_i chain hchain
    split at h
    · rename_i problem hproblem
      rw [chainProblem_fail hproblem] at h
      cases h
    · rename_i hnone
      split_ifs at h with hleaf
      · cases h
      · obtain ⟨hvalid, hissued⟩ := chainProblem_none hnone
        refine ⟨chain, hchain, hvalid, hissued, fun leaf hlast => ?_⟩
        rw [hlast] at hleaf
        simpa using hleaf

theorem verifyCoseSignature_pass (h : (verifyCoseSignature N doc).status = .pass) :
    Signed N doc := by
  unfold verifyCoseSignature at h
  split at h
  · cases h
  · rename_i leaf hleaf
    split at h
    · cases h
    · cases h
    · rename_i hverifies
      obtain ⟨key, hkey, hverifies⟩ := bind_eq_ok.mp hverifies
      split_ifs at hverifies with hkind
      · cases hverifies
      · rw [not_or, not_not, not_not] at hkind
        obtain ⟨ok, hok, hverifies⟩ := bind_eq_ok.mp hverifies
        cases hverifies
        exact ⟨leaf, key, hleaf, hkey, hkind.1, hkind.2, hok⟩
    · cases h

/-- The loop over the pinned registers finds no problem where all are as expected. -/
theorem pcrProblem_none {pcrs : List (Nat × String)} (h : pcrProblem doc pcrs = none) :
    ∀ e ∈ pcrs, ∃ actual, Entries.get doc.pcrs e.1 = some actual ∧
      toHex actual = toLowerCase e.2 := by
  induction pcrs with
  | nil => exact List.forall_mem_nil _
  | cons e rest ih =>
    obtain ⟨index, expected⟩ := e
    rw [pcrProblem] at h
    split at h
    · cases h
    · rename_i actual hactual
      split_ifs at h with hdiffers
      exact List.forall_mem_cons.mpr ⟨⟨actual, hactual, not_not.mp hdiffers⟩, ih h⟩

theorem pcrProblem_fail {pcrs : List (Nat × String)} {problem : Check}
    (h : pcrProblem doc pcrs = some problem) : problem.status = .fail := by
  induction pcrs with
  | nil => cases h
  | cons e rest ih =>
    rw [pcrProblem] at h
    split at h
    · cases h
      rfl
    · split_ifs at h
      · cases h
        rfl
      · exact ih h

/-- Where the checks of the registers are accepted, they are those of the policy. -/
theorem matchesPolicy_of_accepted {policy : NitroPcrPolicy}
    (hdebug : (verifyDebug doc).accepted = true)
    (hpcrs : (verifyPcrs doc (some policy)).1.accepted = true)
    (hpcr8 : (verifyPcrs doc (some policy)).2.accepted = true) : MatchesPolicy doc policy := by
  unfold verifyPcrs at hpcrs hpcr8
  dsimp only at hpcrs hpcr8
  split_ifs at hpcrs hpcr8 with hmissing
  · cases hpcrs
  · rw [ne_eq, not_not, List.filter_eq_nil_iff] at hmissing
    have hequal : ∀ e ∈ policy.pcrs, ∃ actual, Entries.get doc.pcrs e.1 = some actual ∧
        toHex actual = toLowerCase e.2 := by
      cases hproblem : pcrProblem doc policy.pcrs with
      | none => exact pcrProblem_none hproblem
      | some problem =>
        rw [hproblem, Option.getD_some, Check.accepted, pcrProblem_fail hproblem] at hpcrs
        cases hpcrs
    have hpinned : ∀ i ∈ [0, 1, 2], ∃ expected actual,
        Entries.get policy.pcrs i = some expected ∧ Entries.get doc.pcrs i = some actual ∧
          toHex actual = toLowerCase expected := by
      intro i hi
      obtain ⟨expected, hexpected⟩ : ∃ expected, Entries.get policy.pcrs i = some expected := by
        rw [← Option.ne_none_iff_exists']
        simpa using hmissing i hi
      obtain ⟨actual, hactual, hsame⟩ := hequal _ (Entries.mem_of_get hexpected)
      exact ⟨expected, actual, hexpected, hactual, hsame⟩
    refine ⟨hpinned, hequal, ?_, ?_⟩
    · unfold verifyDebug at hdebug
      split_ifs at hdebug with hzero
      · cases hdebug
      · rw [List.all_eq_true] at hzero
        push Not at hzero
        obtain ⟨i, hi, hnonzero⟩ := hzero
        obtain ⟨-, actual, -, hactual, -⟩ := hpinned i hi
        refine ⟨i, hi, actual, hactual, ?_⟩
        rw [hactual] at hnonzero
        simpa using hnonzero
    · unfold pcr8Check at hpcr8
      split_ifs at hpcr8 with hunsigned
      · exact .inl hunsigned
      · refine .inr ?_
        split at hpcr8
        · cases hpcr8
        · rename_i actual hactual
          split_ifs at hpcr8 with hsame
          · exact ⟨actual, hactual, hsame⟩
          · cases hpcr8

theorem userData_of_accepted {key : ReceiptKey} {expected : Bytes}
    (h : (userDataCheck doc key expected).accepted = true) : doc.userData = some expected := by
  unfold userDataCheck at h
  split at h
  · cases h
  · rename_i userData huserData
    split_ifs at h with hsame
    · rw [huserData, (bytesEqual_iff _ _).mp hsame]
    · cases h

theorem publicKey_of_accepted {spki : Bytes} (h : (publicKeyCheck doc spki).accepted = true) :
    doc.publicKey = some spki := by
  unfold publicKeyCheck at h
  split at h
  · cases h
  · rename_i publicKey hpublicKey
    split_ifs at h with hsame
    · rw [hpublicKey, (bytesEqual_iff _ _).mp hsame]
    · cases h

/-- Where the checks of the key are accepted, the document binds it. -/
theorem bindsKey_of_accepted {policy : NitroPcrPolicy} {key : ReceiptKey} {checks : Check × Check}
    (hpolicy : o.policy = some policy) (hkey : o.receiptKey = some key)
    (h : verifyBinding H doc o = .ok checks) (hbinding : checks.1.accepted = true)
    (hpublicKey : checks.2.accepted = true) : BindsKey H doc policy key := by
  unfold verifyBinding at h
  rw [hpolicy, hkey] at h
  obtain ⟨digest, hdigest, h⟩ := bind_eq_ok.mp h
  dsimp only [Option.map_some, Option.getD_some] at h
  split_ifs at h with hmode
  · cases h
    refine ⟨⟨digest, hdigest, userData_of_accepted hbinding⟩, fun hreceipt => ?_⟩
    rw [hmode] at hreceipt
    cases hreceipt
  · obtain ⟨pub, hpub, h⟩ := bind_eq_ok.mp h
    obtain ⟨spki, hspki, h⟩ := bind_eq_ok.mp h
    cases h
    exact ⟨⟨digest, hdigest, userData_of_accepted hbinding⟩,
      fun _ => ⟨pub, spki, hpub, hspki, publicKey_of_accepted hpublicKey⟩⟩

/-- Where the check of freshness is accepted, the document is fresh under the rule. -/
theorem freshUnder_of_accepted {rule : NitroFreshness} (hrule : o.freshness = some rule)
    (h : (verifyFreshness H doc o now).1.accepted = true) : FreshUnder doc now rule := by
  unfold verifyFreshness at h
  rw [hrule] at h
  cases rule with
  | nonce expected ledger =>
    dsimp only [verifyNonce] at h
    split at h
    · cases h
    · rename_i nonce hnonce
      split_ifs at h with hdiffers
      · cases h
      · rw [Bool.not_eq_true', Bool.not_eq_false, bytesEqual_iff] at hdiffers
        subst hdiffers
        refine ⟨hnonce, fun seen hseen => ?_⟩
        obtain rfl := hseen
        dsimp only at h
        split_ifs at h with hreplayed
        · cases h
        · simpa using hreplayed
  | timestampWindow maxAgeMs clockSkewMs =>
    dsimp only [verifyWindow] at h
    split_ifs at h with hfuture hstale
    · cases h
    · cases h
    · exact ⟨Bool.eq_false_iff.mpr hfuture, Bool.eq_false_iff.mpr hstale⟩

/-! ## Reports -/

/-- A document that does not decode never passes. -/
theorem malformedReport_not_pass {raw : Bytes} {e : Malformed} :
    (malformedReport H bundle o raw e).overallStatus ≠ .pass := by
  intro h
  dsimp only [malformedReport] at h
  have haccepted : AllAccepted (malformedChecks e) REQUIRED := allAccepted_of_overallOf h
  obtain ⟨c, hc, hbad⟩ := haccepted "structure" (by decide)
  cases hc
  cases hbad

theorem authenticate_spec {a : Authentication} (h : authenticate N H bundle o doc now = .ok a) :
    a.root = verifyRoot H bundle doc now ∧
      (∃ label, a.chain = verifyChain N H doc (judgedAt o doc now) label) ∧
      a.signature = verifyCoseSignature N doc := by
  obtain ⟨label, -, h⟩ := bind_eq_ok.mp h
  cases h
  exact ⟨rfl, ⟨label, rfl⟩, rfl⟩

theorem Authentication.verified_iff {a : Authentication} : a.verified = true ↔
    a.root.1.status = .pass ∧ a.chain.status = .pass ∧ a.signature.status = .pass := by
  simp only [Authentication.verified, Bool.and_eq_true, decide_eq_true_eq, and_assoc]

/-- What stands behind a report that passes: a document that decodes and is authentic, and whose
claims are all accepted. -/
structure ClaimsAccepted (N : NitroHost κ) (H : Host) (raw : Bytes) (o : VerifyNitroOptions)
    (doc : Decoded) (a : Authentication) (keys : Check × Check) : Prop where
  decoded : decodeDocument N H raw (o.maxBytes.getD (16 * 1024)) = .ok doc
  authenticated : authenticate N H (o.trustBundle.getD N.AWS_NITRO_TRUST_BUNDLE) o doc
    (o.now.getD N.dateNow) = .ok a
  verified : a.verified = true
  bound : verifyBinding H doc o = .ok keys
  accepted : AllAccepted (reportedChecks a [("debug_mode", verifyDebug doc),
    ("pcr_policy", (verifyPcrs doc o.policy).1), ("pcr8_signing", (verifyPcrs doc o.policy).2),
    ("key_binding", keys.1), ("public_key", keys.2),
    ("freshness", (verifyFreshness H doc o (o.now.getD N.dateNow)).1)]) REQUIRED

theorem claims_of_pass {raw : Bytes} {report : NitroAttestationReport}
    {ledger : Option NonceLedger} (h : verifyNitroAttestation N H raw o = .ok (report, ledger))
    (hpass : report.overallStatus = .pass) : ∃ doc a keys, ClaimsAccepted N H raw o doc a keys := by
  unfold verifyNitroAttestation at h
  cases hdecoded : decodeDocument N H raw (o.maxBytes.getD (16 * 1024)) with
  | error e =>
    rw [hdecoded] at h
    obtain ⟨rfl, -⟩ := Prod.mk.inj (Except.ok.inj h)
    exact absurd hpass malformedReport_not_pass
  | ok doc =>
    rw [hdecoded] at h
    obtain ⟨a, ha, h⟩ := bind_eq_ok.mp h
    obtain ⟨⟨claims, ledger'⟩, hclaims, h⟩ := bind_eq_ok.mp h
    obtain ⟨rfl, -⟩ := Prod.mk.inj (Except.ok.inj h)
    have haccepted : AllAccepted (reportedChecks a claims) REQUIRED :=
      allAccepted_of_overallOf hpass
    rw [claimChecks] at hclaims
    split_ifs at hclaims with hverified
    · obtain ⟨keys, hkeys, hclaims⟩ := bind_eq_ok.mp hclaims
      cases hclaims
      exact ⟨doc, a, keys, hdecoded, ha, hverified, hkeys, haccepted⟩
    · -- the claims of such a document are not checked
      cases hclaims
      obtain ⟨c, hc, hbad⟩ := haccepted "debug_mode" (by decide)
      cases hc
      cases hbad

theorem ClaimsAccepted.attests {raw : Bytes} {a : Authentication} {keys : Check × Check}
    (h : ClaimsAccepted N H raw o doc a keys) {policy : NitroPcrPolicy} {key : ReceiptKey}
    {rule : NitroFreshness} (hpolicy : o.policy = some policy) (hkey : o.receiptKey = some key)
    (hrule : o.freshness = some rule) :
    Attests N H raw (o.trustBundle.getD N.AWS_NITRO_TRUST_BUNDLE) policy key rule
      (judgedAt o doc (o.now.getD N.dateNow)) (o.now.getD N.dateNow) doc := by
  obtain ⟨hroot, ⟨label, hchain⟩, hsignature⟩ := authenticate_spec h.authenticated
  obtain ⟨hrootPass, hchainPass, hsignaturePass⟩ := Authentication.verified_iff.mp h.verified
  rw [hroot] at hrootPass
  rw [hchain] at hchainPass
  rw [hsignature] at hsignaturePass
  have hdebug : (verifyDebug doc).accepted = true :=
    h.accepted.of_get "debug_mode" (by decide) rfl
  have hpcrs : (verifyPcrs doc o.policy).1.accepted = true :=
    h.accepted.of_get "pcr_policy" (by decide) rfl
  have hpcr8 : (verifyPcrs doc o.policy).2.accepted = true :=
    h.accepted.of_get "pcr8_signing" (by decide) rfl
  have hbinding : keys.1.accepted = true := h.accepted.of_get "key_binding" (by decide) rfl
  have hpublicKey : keys.2.accepted = true := h.accepted.of_get "public_key" (by decide) rfl
  have hfresh : (verifyFreshness H doc o (o.now.getD N.dateNow)).1.accepted = true :=
    h.accepted.of_get "freshness" (by decide) rfl
  rw [hpolicy] at hpcrs hpcr8
  have hdecode := decodeDocument_spec h.decoded
  obtain ⟨⟨root, hmem, hder⟩, hunexpired⟩ := verifyRoot_pass hrootPass
  refine {
    root := ⟨root, hmem, ?_⟩
    unexpired := hunexpired
    chain := verifyChain_pass hchainPass
    signature := verifyCoseSignature_pass hsignaturePass
    decoded := hdecode
    registers := matchesPolicy_of_accepted hdebug hpcrs hpcr8
    binding := bindsKey_of_accepted hpolicy hkey h.bound hbinding hpublicKey
    fresh := freshUnder_of_accepted hrule hfresh }
  obtain ⟨payload, -, hclaims⟩ := hdecode.claims
  obtain ⟨-, -, -, hcabundle⟩ := decodeClaims_parts hclaims
  rw [hder]
  cases hbundle : doc.cabundle with
  | nil => exact absurd hbundle (cabundleOf_ne_nil hcabundle)
  | cons first rest => rfl

end

end CoolSdk.Nitro

namespace CoolSdk.Reference

open Nitro

def receiptKey : ReceiptKey :=
  { keyId := "receipt"
    entry := { mlDsaPub := "base64:", ed25519Pub := "base64:" ++ toBase64 (List.replicate 32 7) } }

/-- The digest that binds the receipt key. -/
def receiptBinding : Bytes := (keyBindingUserData totalHost receiptKey).toOption.getD []

def receiptSpki : Bytes := ED25519_SPKI_PREFIX ++ List.replicate 32 7

/-- Three registers of ones, of twos and of threes. -/
def enclaveRegister (i : Nat) : Bytes := List.replicate 48 (.ofNat (i + 1))

/-- The payload of a document that binds the receipt key and answers a challenge of one byte. -/
def attestedPayload (nonce : UInt8) : Bytes :=
  let text (s : String) := Cbor.encode (.text (utf8 s))
  let bytes (b : Bytes) := Cbor.encode (.bytes b)
  Cbor.head 5 9 ++ text "module_id" ++ text "i-1" ++ text "digest" ++ text "SHA384" ++
    text "timestamp" ++ Cbor.encode (.unsigned 1700000000000) ++
    text "pcrs" ++ Cbor.head 5 3 ++
      ([0, 1, 2].flatMap fun i => Cbor.encode (.unsigned i) ++ bytes (enclaveRegister i)) ++
    text "certificate" ++ bytes [1] ++ text "cabundle" ++ Cbor.encode (.array [.bytes [2]]) ++
    text "public_key" ++ bytes receiptSpki ++ text "user_data" ++ bytes receiptBinding ++
    text "nonce" ++ bytes [nonce]

def attestedDocument (nonce : UInt8) : Bytes :=
  Cbor.encode (.array [.bytes es384Header, .map [], .bytes (attestedPayload nonce),
    .bytes (List.replicate 96 0)])

/-- A host that decodes the parts of the documents for the challenges 42 and 43. The certificate 2
is a root and has issued the certificate 1, whose key is of the right kind. -/
def attestingHost : NitroHost Nat where
  decode bytes :=
    match [42, 43].find? fun nonce => decide (bytes = attestedDocument nonce),
      [42, 43].find? fun nonce => decide (bytes = attestedPayload nonce) with
    | some nonce, _ =>
      .ok (.array [.bytes es384Header, .map [], .bytes (attestedPayload nonce),
        .bytes (List.replicate 96 0)])
    | none, some nonce =>
      .ok (.map [(.text "module_id", .text "i-1"), (.text "digest", .text "SHA384"),
        (.text "timestamp", .num (.ofInt 1700000000000)),
        (.text "pcrs", .map ([0, 1, 2].map fun i =>
          (.num (.ofInt (i : Nat)), .bytes (enclaveRegister i)))),
        (.text "certificate", .bytes [1]), (.text "cabundle", .array [.bytes [2]]),
        (.text "public_key", .bytes receiptSpki), (.text "user_data", .bytes receiptBinding),
        (.text "nonce", .bytes [nonce])])
    | none, none =>
      if bytes = es384Header then .ok (.map [(.num (.ofInt 1), .num (.ofInt (-35)))])
      else .error "unexpected end of input"
  certificate der :=
    match der with
    | [n] => .ok n.toNat
    | _ => .error "not a certificate"
  validFrom _ := isoText 0
  validTo _ := isoText 2000000000000
  ca n := decide (n = 2)
  checkIssued n parent := decide (n = 1 ∧ parent = 2)
  verify n parent := .ok (decide (n = 1 ∧ parent = 2))
  publicKey _ := .ok { asymmetricKeyType := some "ec", namedCurve := some "secp384r1" }
  cryptoVerify _ n _ := .ok (decide (n = 1))
  AWS_NITRO_TRUST_BUNDLE :=
    { id := "aws", version := "1"
      roots := [{ name := "root", der := [2], fingerprintSha256 := "02" }] }
  dateNow := .ofInt 1700000001000

def enclavePolicy : NitroPcrPolicy :=
  { id := "policy", version := "1", source := "build", pcr8 := "not_applicable"
    pcrs := [0, 1, 2].map fun i => (i, toHex (enclaveRegister i)) }

end CoolSdk.Reference
