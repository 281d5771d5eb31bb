import CoolSdk.Platform.ChainOrder
import CoolSdk.Platform.Timestamp

/-!
# What a verified timestamp rests on

The outcome is `verified` exactly where the bytes of a token have all that the verifier asks for.
From this each fact of the report follows down to the signed bytes, except that the certificate of
the signer is valid at the time: its dates are compared without asking whether they are dates.
-/

namespace CoolSdk.Timestamp

/-- What is found in a token, and for it. -/
structure Evidence (κ : Type) where
  parsed : ParsedToken
  info : TstInfo
  signerInfo : SignerInfo
  attrs : OrderedMap String DerNode
  hashName : HashName
  certHashAlg : HashName
  certHash : Bytes
  signerDer : Bytes
  signer : κ
  pool : List κ

section

variable {κ : Type} (T : TimestampHost κ)

/-- The certificate of the signer is for timestamps alone, and says so critically. -/
def ForTimestampsOnly (signerDer : Bytes) (signer : κ) : Prop :=
  ∃ exts eku, certificateExtensions signerDer = .ok exts ∧ exts.get OID.extKeyUsage = some eku ∧
    eku.critical = true ∧ T.keyUsage signer = [OID.timeStamping]

/-- A nonce is the one that is expected, if one is. -/
def NonceExpected (tokenNonce expected : Option String) : Prop :=
  ∀ nonce ∈ expected, ∃ found, tokenNonce = some found ∧ normHex found = normHex nonce

/-- All that the verifier asks of a token. -/
structure Accepted (token : Bytes) (o : VerifyTimestampOptions) (e : Evidence κ) : Prop where
  parsed : parseWithin T token o.maxBytes = .ok e.parsed
  status : e.parsed.statusValue.all (· ≤ 1) = true
  info : readTstInfo T.decodeText e.parsed.tstInfo = .ok e.info
  signerInfo : readSignerInfo e.parsed = .ok e.signerInfo
  attrs : readAttributes e.signerInfo.signedAttrs = .ok e.attrs
  named : signingCertificateHash e.attrs = .ok (some (e.certHashAlg, e.certHash))
  found : (poolOf e.parsed o).find? (fun c => decide (T.createHash e.certHashAlg c = e.certHash)) =
    some e.signerDer
  hashName : acceptedHash e.signerInfo.digestAlg = some e.hashName
  contentType : contentTypeMatches e.attrs = .ok true
  digest : messageDigestMatches T e.attrs e.hashName e.parsed.tstInfoBytes = .ok true
  certificate : T.certificate e.signerDer = .ok e.signer
  sid : sidMatches e.signerInfo.sid e.signerDer = .ok true
  algorithm : e.signerInfo.sigAlg ∈ OID.rsa ++ OID.ec
  signature : T.cryptoVerify e.hashName (retagged TAG.SET e.signerInfo.signedAttrs) e.signer
    e.signerInfo.signature = true
  usage : ForTimestampsOnly T e.signerDer e.signer
  inside : outside T e.info.genTimeMs e.signer = false
  pool : (poolOf e.parsed o).mapM T.certificate = .ok e.pool
  chain : T.ChainPasses e.signer e.pool o.trustAnchors e.info.genTimeMs
  imprint : e.info.hashAlgorithm = OID.sha256 ∧ e.info.hashedMessage = o.digest
  nonce : NonceExpected e.info.nonce o.nonce
  printable : ∃ text, toISOString (.ofInt e.info.genTimeMs) = .ok text

/-- What a verified token is to rest on. The time, serial, nonce and imprint that are reported are
read of bytes whose digest is in the signed attributes; these, as a SET, are signed under the key of
the certificate whose hash they name; that one is for timestamps alone and valid at the time, and
there is a path from it over valid CA certificates to a pinned anchor. -/
structure Sound (token : Bytes) (o : VerifyTimestampOptions) (e : Evidence κ) : Prop where
  parsed : parseToken token = .ok e.parsed
  tstInfo : parseDer e.parsed.tstInfoBytes = .ok e.parsed.tstInfo
  info : readTstInfo T.decodeText e.parsed.tstInfo = .ok e.info
  reported : ∃ text, toISOString (.ofInt e.info.genTimeMs) = .ok text ∧
    (verifyTimestampToken T token o).details.genTime = some text ∧
    (verifyTimestampToken T token o).details.serial = some e.info.serial
  signerInfo : readSignerInfo e.parsed = .ok e.signerInfo
  set : ∃ set, parseDer (retagged TAG.SET e.signerInfo.signedAttrs) = .ok set ∧
    set.tag = TAG.SET ∧ readAttributes set = .ok e.attrs
  digest : ∃ values, e.attrs.get OID.messageDigest = some values ∧
    octets values 0 "messageDigest" = .ok (T.createHash e.hashName e.parsed.tstInfoBytes)
  named : signingCertificateHash e.attrs = .ok (some (e.certHashAlg, e.certHash))
  signer : (poolOf e.parsed o).find? (fun c => decide (T.createHash e.certHashAlg c = e.certHash)) =
    some e.signerDer ∧ T.certificate e.signerDer = .ok e.signer
  signature : T.cryptoVerify e.hashName (retagged TAG.SET e.signerInfo.signedAttrs) e.signer
    e.signerInfo.signature = true
  usage : ForTimestampsOnly T e.signerDer e.signer
  valid : T.valid e.info.genTimeMs e.signer = true
  path : (poolOf e.parsed o).mapM T.certificate = .ok e.pool ∧
    T.Path e.pool (T.pinnedOf o.trustAnchors) e.info.genTimeMs 8 true e.signer
  imprint : e.info.hashAlgorithm = OID.sha256 ∧ e.info.hashedMessage = o.digest
  nonce : NonceExpected e.info.nonce o.nonce

/-- A date of a certificate cannot be read. -/
def Undated (c : κ) : Prop := T.validFrom c = none ∨ T.validTo c = none

end

section

variable {κ : Type} {T : TimestampHost κ} {token : Bytes} {o : VerifyTimestampOptions}
  {e : Evidence κ} {p : ParsedToken} {si : SignerInfo} {info : TstInfo} {signer : κ} {time : Int}

/-! ## Checks -/

theorem exists_get_iff {checks : Checks} {name : String} {c : Check}
    (h : Entries.get checks name = some c) :
    (∃ c, Entries.get checks name = some c ∧ c.accepted = true) ↔ c.accepted = true := by
  constructor
  · rintro ⟨c', hc', haccepted⟩
    obtain rfl := Option.some.inj (h.symm.trans hc')
    exact haccepted
  · intro haccepted
    exact ⟨c, h, haccepted⟩

theorem finish_verified_iff {checks : TimestampChecks} {details : TimestampDetails} :
    (finish checks details).outcome = .verified ↔
      checks.status.accepted = true ∧ checks.imprint.accepted = true ∧
        checks.nonce.accepted = true ∧ checks.signedAttrs.accepted = true ∧
        checks.signature.accepted = true ∧ checks.signerCertificate.accepted = true ∧
        checks.chain.accepted = true := by
  rw [finish, classifyOutcome_verified_iff, AllAccepted, List.forall_mem_cons, List.forall_mem_cons,
    List.forall_mem_cons, List.forall_mem_cons, List.forall_mem_cons, List.forall_mem_cons,
    List.forall_mem_singleton, exists_get_iff (c := checks.status) rfl,
    exists_get_iff (c := checks.imprint) rfl, exists_get_iff (c := checks.nonce) rfl,
    exists_get_iff (c := checks.signedAttrs) rfl, exists_get_iff (c := checks.signature) rfl,
    exists_get_iff (c := checks.signerCertificate) rfl, exists_get_iff (c := checks.chain) rfl]

theorem statusCheck_accepted {value : Option Nat} :
    (statusCheck value).accepted = true ↔ value.all (· ≤ 1) = true := by
  rw [statusCheck]
  by_cases h : value.all (· ≤ 1) = true
  · rw [if_pos h]
    exact iff_of_true rfl h
  · rw [if_neg h]
    exact iff_of_false nofun h

theorem imprintCheck_accepted {digest : Bytes} :
    (imprintCheck info digest).accepted = true ↔
      info.hashAlgorithm = OID.sha256 ∧ info.hashedMessage = digest := by
  rw [imprintCheck]
  split_ifs with halgorithm hmessage
  · exact iff_of_false nofun fun h => halgorithm h.1
  · exact iff_of_true rfl ⟨not_not.mp halgorithm, hmessage⟩
  · exact iff_of_false nofun fun h => hmessage h.2

theorem nonceCheck_accepted {tokenNonce expected : Option String} :
    (nonceCheck tokenNonce expected).accepted = true ↔ NonceExpected tokenNonce expected := by
  cases expected with
  | none =>
    have haccepted : (nonceCheck tokenNonce none).accepted = true := by
      cases tokenNonce <;> rfl
    exact iff_of_true haccepted nofun
  | some nonce =>
    cases tokenNonce with
    | none =>
      refine iff_of_false nofun fun h => ?_
      obtain ⟨found, hfound, -⟩ := h nonce rfl
      cases hfound
    | some found =>
      rw [nonceCheck]
      split_ifs with hsame
      · refine iff_of_true rfl fun nonce' hnonce' => ?_
        obtain rfl := Option.some.inj hnonce'
        exact ⟨found, rfl, hsame⟩
      · refine iff_of_false nofun fun h => ?_
        obtain ⟨found', hfound, hsame'⟩ := h nonce rfl
        obtain rfl := Option.some.inj hfound
        exact hsame hsame'

/-- The attributes are accepted where they have the type and the digest of the TSTInfo and the
certificate that they name is found. -/
theorem signedAttrsCheck_accepted {attrs : OrderedMap String DerNode} {bytes : Bytes}
    {problem : Option String} :
    (∃ c, signedAttrsCheck T si attrs bytes problem = .ok c ∧ c.accepted = true) ↔
      ∃ hashName, acceptedHash si.digestAlg = some hashName ∧ contentTypeMatches attrs = .ok true ∧
        messageDigestMatches T attrs hashName bytes = .ok true ∧ problem = none := by
  rw [signedAttrsCheck]
  cases acceptedHash si.digestAlg with
  | none =>
    refine iff_of_false ?_ nofun
    rintro ⟨c, hc, haccepted⟩
    cases hc
    cases haccepted
  | some hashName =>
    dsimp only
    constructor
    · rintro ⟨c, hc, haccepted⟩
      obtain ⟨typed, htyped, hc⟩ := bind_eq_ok.mp hc
      cases typed with
      | false =>
        cases hc
        cases haccepted
      | true =>
        obtain ⟨digested, hdigested, hc⟩ := bind_eq_ok.mp hc
        cases digested with
        | false =>
          cases hc
          cases haccepted
        | true =>
          cases problem with
          | some problem =>
            cases hc
            cases haccepted
          | none => exact ⟨hashName, rfl, htyped, hdigested, rfl⟩
    · rintro ⟨hashName', hname, htyped, hdigested, rfl⟩
      obtain rfl := Option.some.inj hname
      rw [htyped, ok_bind, if_neg (by decide), hdigested, ok_bind, if_neg (by decide)]
      exact ⟨_, rfl, rfl⟩

theorem signatureCheck_accepted :
    (signatureCheck T si signer).accepted = true ↔
      si.sigAlg ∈ OID.rsa ++ OID.ec ∧ ∃ hashName, acceptedHash si.digestAlg = some hashName ∧
        T.cryptoVerify hashName (retagged TAG.SET si.signedAttrs) signer si.signature = true := by
  rw [signatureCheck]
  by_cases hpss : si.sigAlg = OID.rsassaPss
  · rw [if_pos hpss]
    refine iff_of_false nofun ?_
    rintro ⟨hmem, -⟩
    rw [hpss] at hmem
    revert hmem
    decide
  · rw [if_neg hpss]
    by_cases hmem : si.sigAlg ∈ OID.rsa ++ OID.ec
    · cases hname : acceptedHash si.digestAlg with
      | none => exact iff_of_false nofun nofun
      | some hashName =>
        rw [Option.filter_some, if_pos (List.contains_iff_mem.mpr hmem)]
        dsimp only
        by_cases hverify : T.cryptoVerify hashName (retagged TAG.SET si.signedAttrs) signer
            si.signature = true
        · rw [if_pos hverify]
          exact iff_of_true rfl ⟨hmem, hashName, rfl, hverify⟩
        · rw [if_neg hverify]
          refine iff_of_false nofun ?_
          rintro ⟨-, hashName', hsame, hverify'⟩
          obtain rfl := Option.some.inj hsame
          exact hverify hverify'
    · have hnone : ((acceptedHash si.digestAlg).filter
          fun _ => (OID.rsa ++ OID.ec).contains si.sigAlg) = none := by
        rw [Option.filter_eq_none_iff]
        intro _ _ hcontains
        exact hmem (List.contains_iff_mem.mp hcontains)
      rw [hnone]
      exact iff_of_false nofun fun h => hmem h.1

theorem signerCertificateCheck_accepted {exts : OrderedMap String Extension} :
    (∃ c, signerCertificateCheck T exts signer time = .ok c ∧ c.accepted = true) ↔
      (∃ eku, exts.get OID.extKeyUsage = some eku ∧ eku.critical = true ∧
        T.keyUsage signer = [OID.timeStamping]) ∧ outside T time signer = false := by
  rw [signerCertificateCheck]
  cases exts.get OID.extKeyUsage with
  | none =>
    refine iff_of_false ?_ nofun
    rintro ⟨c, hc, haccepted⟩
    cases hc
    cases haccepted
  | some eku =>
    dsimp only
    constructor
    · rintro ⟨c, hc, haccepted⟩
      split_ifs at hc with hcritical husage houtside
      · cases hc
        cases haccepted
      · cases hc
        cases haccepted
      · obtain ⟨_, -, hc⟩ := bind_eq_ok.mp hc
        cases hc
        cases haccepted
      · exact ⟨⟨eku, rfl, by simpa using hcritical, not_not.mp husage⟩, by simpa using houtside⟩
    · rintro ⟨⟨eku', heku, hcritical, husage⟩, hinside⟩
      obtain rfl := Option.some.inj heku
      rw [hcritical, husage, hinside]
      exact ⟨_, rfl, rfl⟩

/-- Every verdict over a chain that is accepted is a pass. -/
theorem chainLoop_accepted {κ : Type} {C : NodeCrypto κ} {pool : List κ}
    {pinned : List (PinnedAnchor κ)} {n : Nat} {first : Bool} {c : κ} {path : List String}
    (h : (C.chainLoop pool pinned time n first c path).1.accepted = true) :
    (C.chainLoop pool pinned time n first c path).1.status = .pass := by
  induction n generalizing first c path with
  | zero => cases h
  | succ n ih =>
    rw [NodeCrypto.chainLoop] at h ⊢
    split at h
    · rfl
    split at h
    · split_ifs at h ⊢
      · cases h
      · rfl
    split at h
    · cases h
    · split_ifs at h ⊢
      · cases h
      · cases h
      · exact ih h

theorem buildChain_accepted {pool : List κ} {anchors : List TsaTrustAnchor} :
    (∃ result, T.buildChain signer pool anchors time = .ok result ∧ result.1.accepted = true) ↔
      T.ChainPasses signer pool anchors time := by
  constructor
  · rintro ⟨result, hresult, haccepted⟩
    refine ⟨result, hresult, ?_⟩
    rw [NodeCrypto.buildChain] at hresult
    split_ifs at hresult
    · cases hresult
      cases haccepted
    · obtain ⟨pinned, -, hresult⟩ := bind_eq_ok.mp hresult
      cases hresult
      exact chainLoop_accepted haccepted
  · rintro ⟨result, hresult, hpass⟩
    refine ⟨result, hresult, ?_⟩
    rw [Check.accepted, hpass]
    rfl

/-! ## Acceptance -/

theorem ofDer_eq_ok {α : Type} {x : Except DerError α} {a : α} : ofDer x = .ok a ↔ x = .ok a := by
  cases x with
  | error err => exact iff_of_false nofun nofun
  | ok a' => exact ⟨fun h => congrArg _ (Except.ok.inj h), fun h => congrArg _ (Except.ok.inj h)⟩

/-- What the rest of the verifier asks for, from the certificate of the signer. -/
theorem accepted_of_verifySigner {signedAttrs : Check} {signerDer : Bytes}
    {report : TimestampReport}
    (h : verifySigner T p o info si signedAttrs signerDer = .ok report)
    (hverified : report.outcome = .verified) :
    signedAttrs.accepted = true ∧ (statusCheck p.statusValue).accepted = true ∧
      (imprintCheck info o.digest).accepted = true ∧
      (nonceCheck info.nonce o.nonce).accepted = true ∧ ∃ signer pool,
        T.certificate signerDer = .ok signer ∧ sidMatches si.sid signerDer = .ok true ∧
        (signatureCheck T si signer).accepted = true ∧ ForTimestampsOnly T signerDer signer ∧
        outside T info.genTimeMs signer = false ∧ (poolOf p o).mapM T.certificate = .ok pool ∧
        T.ChainPasses signer pool o.trustAnchors info.genTimeMs ∧
        ∃ text, toISOString (.ofInt info.genTimeMs) = .ok text := by
  obtain ⟨signer, hsigner, h⟩ := bind_eq_ok.mp h
  obtain ⟨sameSid, hsid, h⟩ := bind_eq_ok.mp h
  obtain ⟨exts, hexts, h⟩ := bind_eq_ok.mp h
  obtain ⟨certificate, hcertificate, h⟩ := bind_eq_ok.mp h
  obtain ⟨pool, hpool, h⟩ := bind_eq_ok.mp h
  obtain ⟨chain, hchain, h⟩ := bind_eq_ok.mp h
  obtain ⟨text, htext, h⟩ := bind_eq_ok.mp h
  obtain rfl := Except.ok.inj h
  obtain ⟨hstatus, himprint, hnonce, hattrs, hsignature, hcertificate', hchain'⟩ :=
    finish_verified_iff.mp hverified
  obtain ⟨⟨eku, heku⟩, hinside⟩ :=
    signerCertificateCheck_accepted.mp ⟨certificate, hcertificate, hcertificate'⟩
  have hpasses := buildChain_accepted.mp ⟨chain, hchain, hchain'⟩
  cases sameSid with
  | false => cases hattrs
  | true =>
    exact ⟨hattrs, hstatus, himprint, hnonce, signer, pool, hsigner, ofDer_eq_ok.mp hsid,
      hsignature, ⟨exts, eku, ofDer_eq_ok.mp hexts, heku⟩, hinside, hpool, hpasses, text, htext⟩

/-- What the verifier asks of a token that is parsed. -/
theorem accepted_of_verifyParsed {report : TimestampReport}
    (hp : parseWithin T token o.maxBytes = .ok p)
    (h : verifyParsed T p o = .ok report) (hverified : report.outcome = .verified) :
    ∃ e, Accepted T token o e := by
  rw [verifyParsed] at h
  dsimp only at h
  split_ifs at h with hstatus
  · obtain rfl := Except.ok.inj h
    cases (finish_verified_iff.mp hverified).2.1
  · obtain ⟨info, hinfo, h⟩ := bind_eq_ok.mp h
    obtain ⟨si, hsi, h⟩ := bind_eq_ok.mp h
    obtain ⟨attrs, hattrs, h⟩ := bind_eq_ok.mp h
    obtain ⟨named, hnamed, h⟩ := bind_eq_ok.mp h
    obtain ⟨signedAttrs, hsignedAttrs, h⟩ := bind_eq_ok.mp h
    rw [ofDer_eq_ok] at hinfo hsi hattrs hnamed hsignedAttrs
    cases hfound : findSigner T (poolOf p o) named with
    | none =>
      rw [hfound] at h
      obtain ⟨_, -, h⟩ := bind_eq_ok.mp h
      obtain rfl := Except.ok.inj h
      cases (finish_verified_iff.mp hverified).2.2.2.2.1
    | some signerDer =>
      rw [hfound] at h hsignedAttrs
      obtain ⟨haccepted, hstatus', himprint, hnonce, signer, pool, hsigner, hsid, hsignature,
        husage, hinside, hpool, hchain, hprintable⟩ := accepted_of_verifySigner h hverified
      obtain ⟨hashName, hname, htyped, hdigest, -⟩ :=
        signedAttrsCheck_accepted.mp ⟨signedAttrs, hsignedAttrs, haccepted⟩
      obtain ⟨halgorithm, hashName', hname', hverify⟩ := signatureCheck_accepted.mp hsignature
      obtain rfl := Option.some.inj (hname'.symm.trans hname)
      obtain ⟨⟨certHashAlg, certHash⟩, rfl, hfind⟩ := Option.bind_eq_some_iff.mp hfound
      exact ⟨{ parsed := p, info, signerInfo := si, attrs, hashName := hashName', certHashAlg
               certHash, signerDer, signer, pool },
        { parsed := hp, status := statusCheck_accepted.mp hstatus', info := hinfo, signerInfo := hsi
          attrs := hattrs, named := hnamed, found := hfind, hashName := hname
          contentType := htyped, digest := hdigest, certificate := hsigner, sid := hsid
          algorithm := halgorithm, signature := hverify, usage := husage, inside := hinside
          pool := hpool, chain := hchain, imprint := imprintCheck_accepted.mp himprint
          nonce := nonceCheck_accepted.mp hnonce, printable := hprintable }⟩

theorem accepted_of_verified (h : (verifyTimestampToken T token o).outcome = .verified) :
    ∃ e, Accepted T token o e := by
  rw [verifyTimestampToken] at h
  cases hp : parseWithin T token o.maxBytes with
  | error err =>
    rw [hp] at h
    cases h
  | ok p =>
    rw [hp] at h
    dsimp only at h
    cases hreport : verifyParsed T p o with
    | error message =>
      rw [hreport] at h
      cases h
    | ok report =>
      rw [hreport] at h
      exact accepted_of_verifyParsed hp hreport h

/-- A token that has what is asked for is verified, and its time and serial are reported. -/
theorem Accepted.verified (h : Accepted T token o e) :
    (verifyTimestampToken T token o).outcome = .verified ∧
      ∃ text, toISOString (.ofInt e.info.genTimeMs) = .ok text ∧
        (verifyTimestampToken T token o).details.genTime = some text ∧
        (verifyTimestampToken T token o).details.serial = some e.info.serial := by
  have hstatus : (statusCheck e.parsed.statusValue).status = .pass := by
    rw [statusCheck, if_pos h.status]
    rfl
  have hfound : findSigner T (poolOf e.parsed o) (some (e.certHashAlg, e.certHash)) =
      some e.signerDer := h.found
  obtain ⟨exts, eku, hexts, heku⟩ := h.usage
  obtain ⟨text, htext⟩ := h.printable
  obtain ⟨signedAttrs, hattrs, hattrs'⟩ := signedAttrsCheck_accepted.mpr
    ⟨e.hashName, h.hashName, h.contentType, h.digest,
      (rfl : essProblemOf (some (e.certHashAlg, e.certHash)) (some e.signerDer) = none)⟩
  obtain ⟨certificate, hcertificate, hcertificate'⟩ :=
    signerCertificateCheck_accepted.mpr ⟨⟨eku, heku⟩, h.inside⟩
  obtain ⟨chain, hchain, hchain'⟩ := buildChain_accepted.mpr h.chain
  have hsignature := signatureCheck_accepted.mpr ⟨h.algorithm, e.hashName, h.hashName, h.signature⟩
  have hsigner : ∃ details, details.genTime = some text ∧ details.serial = some e.info.serial ∧
      verifySigner T e.parsed o e.info e.signerInfo signedAttrs e.signerDer = .ok (finish
        { status := statusCheck e.parsed.statusValue, imprint := imprintCheck e.info o.digest
          nonce := nonceCheck e.info.nonce o.nonce, signedAttrs
          signature := signatureCheck T e.signerInfo e.signer, signerCertificate := certificate
          chain := chain.1 } details) := by
    rw [verifySigner, h.certificate, ok_bind, ofDer_eq_ok.mpr h.sid, ok_bind,
      ofDer_eq_ok.mpr hexts, ok_bind, hcertificate, ok_bind, h.pool, ok_bind, hchain, ok_bind]
    dsimp only
    rw [htext, ok_bind]
    exact ⟨_, rfl, rfl, rfl⟩
  obtain ⟨details, hgenTime, hserial, hsigner⟩ := hsigner
  have hverify : verifyTimestampToken T token o = finish
      { status := statusCheck e.parsed.statusValue, imprint := imprintCheck e.info o.digest
        nonce := nonceCheck e.info.nonce o.nonce, signedAttrs
        signature := signatureCheck T e.signerInfo e.signer, signerCertificate := certificate
        chain := chain.1 } details := by
    rw [verifyTimestampToken, h.parsed]
    dsimp only
    rw [verifyParsed]
    dsimp only
    rw [if_neg (not_not.mpr hstatus), ofDer_eq_ok.mpr h.info, ok_bind,
      ofDer_eq_ok.mpr h.signerInfo, ok_bind, ofDer_eq_ok.mpr h.attrs, ok_bind,
      ofDer_eq_ok.mpr h.named, ok_bind, hfound, ofDer_eq_ok.mpr hattrs, ok_bind]
    dsimp only
    rw [hsigner]
  rw [hverify]
  refine ⟨finish_verified_iff.mpr ⟨statusCheck_accepted.mpr h.status,
    imprintCheck_accepted.mpr h.imprint, nonceCheck_accepted.mpr h.nonce, hattrs', hsignature,
    hcertificate', hchain'⟩, text, htext, hgenTime, hserial⟩

/-! ## Provenance -/

/-- The TSTInfo of a content info is parsed from the bytes that are kept of it. -/
theorem parseContentInfo_spec {statusValue : Option Nat} {contentInfo : DerNode}
    (hread : contentInfo.IsRead) (h : parseContentInfo statusValue contentInfo = .ok p) :
    parseDer p.tstInfoBytes = .ok p.tstInfo ∧ p.signerInfo.IsRead := by
  obtain ⟨contentType, -, h⟩ := bind_eq_ok.mp h
  split_ifs at h
  obtain ⟨content, hcontent, h⟩ := bind_eq_ok.mp h
  obtain ⟨content', hcontent', h⟩ := bind_eq_ok.mp h
  obtain ⟨signedData, hsignedData, h⟩ := bind_eq_ok.mp h
  obtain ⟨version, -, h⟩ := bind_eq_ok.mp h
  obtain ⟨versionValue, -, h⟩ := bind_eq_ok.mp h
  split_ifs at h
  obtain ⟨_, -, h⟩ := bind_eq_ok.mp h
  obtain ⟨encap, -, h⟩ := bind_eq_ok.mp h
  obtain ⟨eContentType, -, h⟩ := bind_eq_ok.mp h
  split_ifs at h
  obtain ⟨explicit, -, h⟩ := bind_eq_ok.mp h
  obtain ⟨explicit', -, h⟩ := bind_eq_ok.mp h
  obtain ⟨tstInfoBytes, -, h⟩ := bind_eq_ok.mp h
  obtain ⟨tstInfo, htstInfo, h⟩ := bind_eq_ok.mp h
  obtain ⟨tstInfo', htstInfo', h⟩ := bind_eq_ok.mp h
  obtain ⟨signerInfos, hsignerInfos, h⟩ := bind_eq_ok.mp h
  have hinfos : signerInfos.IsRead := by
    obtain ⟨-, rfl⟩ := expectTag_iff.mp hcontent'
    exact ((hread.of_mem (mem_of_child hcontent)).of_mem (childTagged_spec hsignedData).1).of_mem
      (childTagged_spec hsignerInfos).1
  split at h
  · rename_i signerInfo hone
    obtain ⟨signerInfo', hsignerInfo', h⟩ := bind_eq_ok.mp h
    cases h
    obtain ⟨-, rfl⟩ := expectTag_iff.mp htstInfo'
    obtain ⟨-, rfl⟩ := expectTag_iff.mp hsignerInfo'
    refine ⟨htstInfo, hinfos.of_mem ?_⟩
    rw [hone]
    exact List.mem_singleton_self _
  · cases h

/-- The same of a token, unless it is a response with a status alone, in which no TSTInfo can be
read. -/
theorem parseToken_spec (h : parseToken token = .ok p) :
    (parseDer p.tstInfoBytes = .ok p.tstInfo ∧ p.signerInfo.IsRead) ∨
      p.tstInfo.children[1]? = none := by
  obtain ⟨root, hroot, h⟩ := bind_eq_ok.mp h
  obtain ⟨root', hroot', h⟩ := bind_eq_ok.mp h
  have hread : root'.IsRead := by
    obtain ⟨-, rfl⟩ := expectTag_iff.mp hroot'
    exact isRead_of_parseDer hroot
  split at h
  · exact .inl (parseContentInfo_spec hread h)
  · obtain ⟨statusInfo, -, h⟩ := bind_eq_ok.mp h
    obtain ⟨statusValue, -, h⟩ := bind_eq_ok.mp h
    split at h
    · rename_i halone
      cases h
      exact .inr halone
    · rename_i ci hci
      obtain ⟨contentInfo, hcontentInfo, h⟩ := bind_eq_ok.mp h
      have hinfo : contentInfo.IsRead := by
        obtain ⟨-, rfl⟩ := expectTag_iff.mp hcontentInfo
        exact hread.of_mem (List.mem_of_getElem? hci)
      exact .inl (parseContentInfo_spec hinfo h)

theorem readSignerInfo_spec (h : readSignerInfo p = .ok si) :
    si.signedAttrs ∈ p.signerInfo.children ∧ si.signedAttrs.tag = 0xa0 := by
  obtain ⟨sid, -, h⟩ := bind_eq_ok.mp h
  obtain ⟨digestAlgorithm, -, h⟩ := bind_eq_ok.mp h
  obtain ⟨digestAlg, -, h⟩ := bind_eq_ok.mp h
  obtain ⟨signedAttrs, hsignedAttrs, h⟩ := bind_eq_ok.mp h
  obtain ⟨sigAlgId, -, h⟩ := bind_eq_ok.mp h
  obtain ⟨sigAlg, -, h⟩ := bind_eq_ok.mp h
  obtain ⟨signature, -, h⟩ := bind_eq_ok.mp h
  obtain ⟨version, -, h⟩ := bind_eq_ok.mp h
  obtain ⟨siVersion, -, h⟩ := bind_eq_ok.mp h
  split_ifs at h
  obtain ⟨_, -, h⟩ := bind_eq_ok.mp h
  obtain ⟨_, -, h⟩ := bind_eq_ok.mp h
  obtain ⟨listed, -, h⟩ := bind_eq_ok.mp h
  split_ifs at h
  cases h
  exact childTagged_spec hsignedAttrs

theorem parseToken_of_parseWithin {maxBytes : Option JsNumber}
    (h : parseWithin T token maxBytes = .ok p) : parseToken token = .ok p := by
  rw [parseWithin] at h
  split_ifs at h
  exact h

/-- What is parsed of an accepted token is parsed from bytes of its own. -/
theorem Accepted.provenance (h : Accepted T token o e) :
    parseDer e.parsed.tstInfoBytes = .ok e.parsed.tstInfo ∧ e.parsed.signerInfo.IsRead := by
  refine (parseToken_spec (parseToken_of_parseWithin h.parsed)).resolve_right fun halone => ?_
  obtain ⟨policy, hpolicy, -⟩ := bind_eq_ok.mp h.info
  obtain ⟨c, hc, -⟩ := bind_eq_ok.mp hpolicy
  rw [child, halone] at hc
  cases hc

/-- The bytes that are signed are those of a SET with the signed attributes. -/
theorem Accepted.set (h : Accepted T token o e) :
    ∃ set, parseDer (retagged TAG.SET e.signerInfo.signedAttrs) = .ok set ∧
      set.tag = TAG.SET ∧ readAttributes set = .ok e.attrs := by
  obtain ⟨hmem, htag⟩ := readSignerInfo_spec h.signerInfo
  have hconstructed : isConstructed e.signerInfo.signedAttrs.tag = true := by
    rw [htag]
    decide
  obtain ⟨set, hset, hsetTag, hchildren⟩ := parseDer_retagged (h.provenance.2.of_mem hmem)
    hconstructed (by decide : isMultiByte TAG.SET = false)
    (by decide : isConstructed TAG.SET = true)
  refine ⟨set, hset, hsetTag, ?_⟩
  rw [readAttributes, hchildren]
  exact h.attrs

theorem messageDigestMatches_spec {attrs : OrderedMap String DerNode} {hashName : HashName}
    {bytes : Bytes} (h : messageDigestMatches T attrs hashName bytes = .ok true) :
    ∃ values, attrs.get OID.messageDigest = some values ∧
      octets values 0 "messageDigest" = .ok (T.createHash hashName bytes) := by
  rw [messageDigestMatches] at h
  split at h
  · cases h
  · rename_i values hvalues
    obtain ⟨digest, hdigest, h⟩ := bind_eq_ok.mp h
    have hsame : digest = T.createHash hashName bytes := of_decide_eq_true (Except.ok.inj h)
    exact ⟨values, hvalues, by rw [hdigest, hsame]⟩

/-! ## Soundness -/

/-- A certificate is valid at a time where it has dates and the time is not outside them. -/
theorem valid_iff :
    T.valid time signer = true ↔ outside T time signer = false ∧ ¬Undated T signer := by
  rw [NodeCrypto.valid, outside, Undated]
  cases T.validFrom signer with
  | none => simp
  | some validFrom =>
    cases T.validTo signer with
    | none => simp
    | some validTo => simp

/-- What an accepted token rests on, where the certificate of the signer has dates. -/
theorem Accepted.sound (h : Accepted T token o e) (hdated : ¬Undated T e.signer) :
    Sound T token o e where
  parsed := parseToken_of_parseWithin h.parsed
  tstInfo := h.provenance.1
  info := h.info
  reported := h.verified.2
  signerInfo := h.signerInfo
  set := h.set
  digest := messageDigestMatches_spec h.digest
  named := h.named
  signer := ⟨h.found, h.certificate⟩
  signature := h.signature
  usage := h.usage
  valid := valid_iff.mpr ⟨h.inside, hdated⟩
  path := ⟨h.pool, NodeCrypto.path_of_chainPasses h.chain⟩
  imprint := h.imprint
  nonce := h.nonce

/-- A token has one certificate of a signer. -/
theorem Sound.signer_eq {e' : Evidence κ} (hs : Sound T token o e') (ha : Accepted T token o e) :
    e'.signer = e.signer := by
  have hparsed : e'.parsed = e.parsed :=
    Except.ok.inj (hs.parsed.symm.trans (parseToken_of_parseWithin ha.parsed))
  have hinfo : e'.signerInfo = e.signerInfo := by
    refine Except.ok.inj (hs.signerInfo.symm.trans ?_)
    rw [hparsed]
    exact ha.signerInfo
  have hattrs : e'.attrs = e.attrs := by
    obtain ⟨set, hset, -, hread⟩ := ha.set
    obtain ⟨set', hset', -, hread'⟩ := hs.set
    rw [hinfo] at hset'
    obtain rfl := Except.ok.inj (hset'.symm.trans hset)
    exact Except.ok.inj (hread'.symm.trans hread)
  have hnamed : (e'.certHashAlg, e'.certHash) = (e.certHashAlg, e.certHash) := by
    refine Option.some.inj (Except.ok.inj (hs.named.symm.trans ?_))
    rw [hattrs]
    exact ha.named
  obtain ⟨halg, hhash⟩ := Prod.mk.inj hnamed
  obtain ⟨hfound, hsigner⟩ := hs.signer
  have hder : e'.signerDer = e.signerDer := by
    rw [hparsed, halg, hhash] at hfound
    exact Option.some.inj (hfound.symm.trans ha.found)
  rw [hder] at hsigner
  exact Except.ok.inj (hsigner.symm.trans ha.certificate)

/-- What is verified is sound, exactly where no token is accepted with a certificate of the signer
one of whose dates cannot be read. -/
theorem timestamp_sound_iff (T : TimestampHost κ) (token : Bytes) (o : VerifyTimestampOptions) :
    ((verifyTimestampToken T token o).outcome = .verified → ∃ e, Sound T token o e) ↔
      ∀ e, Accepted T token o e → ¬Undated T e.signer := by
  constructor
  · intro hsound e haccepted hundated
    obtain ⟨e', hs⟩ := hsound haccepted.verified.1
    refine (valid_iff.mp hs.valid).2 ?_
    rw [hs.signer_eq haccepted]
    exact hundated
  · intro hdated hverified
    obtain ⟨e, haccepted⟩ := accepted_of_verified hverified
    exact ⟨e, haccepted.sound (hdated e haccepted)⟩

end

namespace Reference

/-- A certificate for timestamps alone. -/
def tsaDer : Bytes :=
  derSeq [derSeq [tlv 0xa3 (derSeq [derSeq [derOid OID.extKeyUsage, tlv TAG.BOOLEAN [0xff],
    tlv TAG.OCTET_STRING []]])]]

/-- The first second of 2024, stamped on the digest 7. -/
def tstInfo : Bytes :=
  derSeq [derIntegerOf 1, derOid "1.2.3",
    derSeq [derSeq [derOid OID.sha256], tlv TAG.OCTET_STRING [7]], derIntegerOf 5,
    tlv TAG.GENERALIZED_TIME (utf8 "20240101000000Z")]

def signedAttribute (id : String) (value : Bytes) : Bytes := derSeq [derOid id, derSet [value]]

def signedAttrs : Bytes :=
  signedAttribute OID.contentType (derOid OID.tstInfo) ++
    signedAttribute OID.messageDigest (tlv TAG.OCTET_STRING tstInfo) ++
    signedAttribute OID.signingCertificateV2
      (derSeq [derSeq [derSeq [tlv TAG.OCTET_STRING tsaDer]]])

def signerInfo : Bytes :=
  derSeq [derIntegerOf 3, tlv 0x80 [], derSeq [derOid OID.sha256], tlv 0xa0 signedAttrs,
    derSeq [derOid "1.2.840.113549.1.1.1"], tlv TAG.OCTET_STRING [1]]

/-- A bare token with that certificate inside. -/
def token : Bytes :=
  derSeq [derOid OID.signedData, tlv 0xa0 (derSeq [derIntegerOf 3,
    derSet [derSeq [derOid OID.sha256]],
    derSeq [derOid OID.tstInfo, tlv 0xa0 (tlv TAG.OCTET_STRING tstInfo)], tlv 0xa0 tsaDer,
    derSet [signerInfo]])]

/-- The root is the certificate 9 and has issued every other. These are for timestamps alone, and
no date can be read of where their validity begins. -/
def timestampHost : TimestampHost Bytes where
  createHash _ data := data
  certificate der := .ok der
  raw der := der
  subject _ := "CN=TSA"
  validFrom der := if der = [9] then some 0 else none
  validTo _ := some 1900000000000
  ca _ := true
  keyUsage der := if der = [9] then [] else [OID.timeStamping]
  checkIssued _ issuer := decide (issuer = [9])
  verify _ issuer := decide (issuer = [9])
  cryptoVerify _ _ _ _ := true
  decodeText bytes := String.ofList (bytes.map fun byte => Char.ofNat byte.toNat)
  numberText _ := "65536"

def options : VerifyTimestampOptions :=
  { digest := [7], trustAnchors := [{ name := "root", der := [9] }] }

/-- A token is verified though nothing says that the certificate of its signer was valid yet. -/
theorem undated_signer_verified :
    (verifyTimestampToken timestampHost token options).outcome = .verified ∧
      ¬((verifyTimestampToken timestampHost token options).outcome = .verified →
        ∃ e, Sound timestampHost token options e) := by
  have hverified : (verifyTimestampToken timestampHost token options).outcome = .verified := by
    decide +kernel
  refine ⟨hverified, fun hsound => ?_⟩
  obtain ⟨e, hs⟩ := hsound hverified
  obtain ⟨-, -, -, -, -, husage⟩ := hs.usage
  have hother : e.signer ≠ [9] := by
    intro hroot
    change (if e.signer = [9] then [] else [OID.timeStamping]) = [OID.timeStamping] at husage
    rw [if_pos hroot] at husage
    cases husage
  have hundated : timestampHost.validFrom e.signer = none := if_neg hother
  have hvalid := hs.valid
  rw [NodeCrypto.valid, hundated] at hvalid
  cases hvalid

end Reference

end CoolSdk.Timestamp
