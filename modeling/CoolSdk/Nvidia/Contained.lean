import CoolSdk.Nvidia.NrasResult

/-!
# Where the verifier of NVIDIA results throws

Parsing is guarded. Behind the guard the verifier throws at an anchor that is no certificate, at a
header that is null, at a header or claim that has no text where it prints it, at a key of the
snapshot that is of an unsupported kind, and at a time of issue outside the range of dates.
-/

namespace CoolSdk

section

variable {κ : Type} (N : NvidiaHost κ) (H : Host) (o : VerifyNvidiaOptions)

/-- `String(value)` has a result. -/
def JsValue.HasText (v : JsValue) : Prop := ∃ text, v.toText H = .ok text

/-- Every candidate that the leaf names as its issuer can be asked, up to the first that is. -/
def IssuerContained (leaf : κ) (candidates : List κ) : Prop :=
  ∀ before c after, candidates = before ++ c :: after → N.checkIssued leaf c = true →
    (∀ d ∈ before, N.checkIssued leaf d = true → N.verify leaf d ≠ .ok true) →
    ∃ verified, N.verify leaf c = .ok verified

/-- The key that a token names can be used as far as the verifier does. -/
def KeyContained (jwk : Jwk) : Prop :=
  ∀ first rest leaf, jwk.x5c = some (first :: rest) → N.certificate (N.base64 first) = .ok leaf →
    (∃ certJwk, N.exportJwk leaf = .ok certJwk) ∧
    ∀ anchors, pinnedAnchors N o = .ok anchors →
      IssuerContained N leaf (anchors.map Prod.snd ++
        rest.filterMap fun c => (N.certificate (N.base64 c)).toOption)

/-- A token's header is not null, an algorithm or a key that is not known has a text, and a known
key can be used. -/
structure TokenContained (t : Jwt) : Prop where
  header : t.header.nullish = false
  alg : ∀ alg, t.header.read "alg" = .ok alg → alg ≠ .str "ES384" → alg.HasText H
  kid : t.header.read "alg" = .ok (.str "ES384") → ∀ kid, t.header.read "kid" = .ok kid →
    jwkOf o kid = none → kid.HasText H
  key : t.header.read "alg" = .ok (.str "ES384") → ∀ kid jwk, t.header.read "kid" = .ok kid →
    jwkOf o kid = some jwk → KeyContained N o jwk

/-- Nothing that the verifier reads, prints or asks behind the guard throws. -/
structure ResultContained (overall : Jwt) (gpuTokens : List (String × Jwt)) : Prop where
  anchors : ∀ a ∈ o.anchors.getD N.NRAS_ANCHORS, ∃ cert, N.certificate a.der = .ok cert
  tokens : ∀ e ∈ ("overall", overall) :: gpuTokens, TokenContained N H o e.2
  nonces : ∀ e ∈ ("overall", overall) :: gpuTokens,
    (e.2.claim "eat_nonce").nullish = false → (e.2.claim "eat_nonce").HasText H
  issuer : overall.claim "iss" ≠ .str (o.issuer.getD NRAS_ISSUER) →
    (overall.claim "iss").HasText H
  submods : ∀ e ∈ gpuTokens, ∀ digest, submodDigest overall e.1 = some digest → digest.HasText H
  date : ∀ iat, overall.numberClaim "iat" = some iat → iat.thousandfold.timeClip.isSome = true

variable {N H o}

/-! ## Tokens -/

theorem read_eq_ok {v : JsValue} (h : v.nullish = false) (name : String) :
    ∃ w, v.read name = .ok w := by
  cases v with
  | undefined | null => cases h
  | _ => exact ⟨_, rfl⟩

theorem not_nullish_of_read {v w : JsValue} {name : String} (h : v.read name = .ok w) :
    v.nullish = false := by
  cases v with
  | undefined | null => cases h
  | _ => rfl

theorem strictEquals_str_iff {v : JsValue} {s : String} :
    v.strictEquals (.str s) = true ↔ v = .str s := by
  cases v with
  | str t =>
    rw [JsValue.strictEquals, decide_eq_true_eq]
    exact ⟨congrArg JsValue.str, fun h => by cases h; rfl⟩
  | _ => exact ⟨fun h => (by cases h), fun h => (by cases h)⟩

/-- The search for an issuer goes through exactly where every certificate up to the issuer can be
asked. -/
theorem findIssuer_ok_iff {leaf : κ} {candidates : List κ} :
    (∃ issuer, findIssuer N leaf candidates = .ok issuer) ↔ IssuerContained N leaf candidates := by
  induction candidates with
  | nil =>
    refine iff_of_true ⟨none, rfl⟩ fun before c after h => ?_
    exact absurd h.symm (by simp)
  | cons d rest ih =>
    have hcons : IssuerContained N leaf (d :: rest) ↔
        (N.checkIssued leaf d = true → ∃ verified, N.verify leaf d = .ok verified) ∧
          ((N.checkIssued leaf d = true → N.verify leaf d ≠ .ok true) →
            IssuerContained N leaf rest) := by
      constructor
      · intro h
        refine ⟨fun hd => h [] d rest rfl hd (List.forall_mem_nil _), fun hd => ?_⟩
        rintro before c after rfl hc hbefore
        exact h (d :: before) c after rfl hc (List.forall_mem_cons.mpr ⟨hd, hbefore⟩)
      · rintro ⟨hd, hrest⟩ before c after hsplit hc hbefore
        cases before with
        | nil =>
          obtain ⟨rfl, rfl⟩ := List.cons_eq_cons.mp hsplit
          exact hd hc
        | cons b before =>
          obtain ⟨rfl, rfl⟩ := List.cons_eq_cons.mp hsplit
          obtain ⟨hfirst, hbefore⟩ := List.forall_mem_cons.mp hbefore
          exact hrest hfirst before c after rfl hc hbefore
    rw [hcons, findIssuer]
    split_ifs with hissued
    · simp only [hissued, forall_const, exists_bind_iff]
      constructor
      · rintro ⟨verified, hverified, hrest⟩
        refine ⟨⟨verified, hverified⟩, fun hnot => ?_⟩
        cases verified with
        | true => exact absurd hverified hnot
        | false => exact ih.mp hrest
      · rintro ⟨⟨verified, hverified⟩, hrest⟩
        refine ⟨verified, hverified, ?_⟩
        cases verified with
        | true => exact ⟨_, rfl⟩
        | false =>
          refine ih.mpr (hrest fun htrue => ?_)
          rw [hverified] at htrue
          cases htrue
    · simp only [hissued, Bool.false_eq_true, false_imp_iff, true_and, forall_const]
      exact ih

theorem judgeLeaf_ok_iff {anchors : List (String × κ)} {found : TokenProblems} {id : String}
    {t : Jwt} {jwk : Jwk} {leaf : κ} {supplied : List κ} :
    (∃ found', judgeLeaf N o anchors found id t jwk leaf supplied = .ok found') ↔
      IssuerContained N leaf (anchors.map Prod.snd ++ supplied) ∧
        ∃ certJwk, N.exportJwk leaf = .ok certJwk := by
  rw [judgeLeaf, exists_bind_iff, ← findIssuer_ok_iff]
  constructor
  · rintro ⟨issuer, hissuer, hrest⟩
    obtain ⟨certJwk, hjwk, -⟩ := exists_bind_iff.mp hrest
    exact ⟨⟨issuer, hissuer⟩, certJwk, hjwk⟩
  · rintro ⟨⟨issuer, hissuer⟩, certJwk, hjwk⟩
    refine ⟨issuer, hissuer, exists_bind_iff.mpr ⟨certJwk, hjwk, ?_⟩⟩
    split_ifs
    · exact ⟨_, rfl⟩
    · split <;> exact ⟨_, rfl⟩

/-- What is asked of a token whose header names an algorithm and a key. -/
theorem tokenContained_iff_of_read {t : Jwt} {alg kid : JsValue}
    (hheader : t.header.nullish = false) (halg : t.header.read "alg" = .ok alg)
    (hkid : t.header.read "kid" = .ok kid) :
    TokenContained N H o t ↔ (alg ≠ .str "ES384" → alg.HasText H) ∧
      (alg = .str "ES384" → jwkOf o kid = none → kid.HasText H) ∧
      (alg = .str "ES384" → ∀ jwk, jwkOf o kid = some jwk → KeyContained N o jwk) := by
  constructor
  · rintro ⟨-, h1, h2, h3⟩
    refine ⟨h1 alg halg, ?_, ?_⟩
    · rintro rfl
      exact h2 halg kid hkid
    · rintro rfl jwk
      exact h3 halg kid jwk hkid
  · rintro ⟨h1, h2, h3⟩
    refine ⟨hheader, ?_, ?_, ?_⟩
    · intro alg' halg'
      rw [halg] at halg'
      cases halg'
      exact h1
    · intro halg' kid' hkid'
      rw [halg] at halg'
      cases halg'
      rw [hkid] at hkid'
      cases hkid'
      exact h2 rfl
    · intro halg' kid' jwk hkid'
      rw [halg] at halg'
      cases halg'
      rw [hkid] at hkid'
      cases hkid'
      exact h3 rfl jwk

/-- What is asked of a key whose first certificate parses. -/
theorem keyContained_iff_of_leaf {anchors : List (String × κ)} {jwk : Jwk} {first : String}
    {rest : List String} {leaf : κ} (hanchors : pinnedAnchors N o = .ok anchors)
    (hsome : jwk.x5c = some (first :: rest)) (hleaf : N.certificate (N.base64 first) = .ok leaf) :
    KeyContained N o jwk ↔ IssuerContained N leaf (anchors.map Prod.snd ++
        rest.filterMap fun c => (N.certificate (N.base64 c)).toOption) ∧
      ∃ certJwk, N.exportJwk leaf = .ok certJwk := by
  constructor
  · intro hkey
    obtain ⟨hexport, hissuer⟩ := hkey first rest leaf hsome hleaf
    exact ⟨hissuer anchors hanchors, hexport⟩
  · rintro ⟨hissuer, hexport⟩ first' rest' leaf' hsome' hleaf'
    rw [hsome] at hsome'
    cases hsome'
    rw [hleaf] at hleaf'
    cases hleaf'
    refine ⟨hexport, fun anchors' hanchors' => ?_⟩
    rw [hanchors] at hanchors'
    cases hanchors'
    exact hissuer

/-- Nothing is asked of a key that has no certificate or whose first does not parse. -/
theorem keyContained_of_no_leaf {jwk : Jwk}
    (h : ∀ first rest leaf, jwk.x5c = some (first :: rest) →
      N.certificate (N.base64 first) ≠ .ok leaf) : KeyContained N o jwk :=
  fun first rest leaf hsome hleaf => absurd hleaf (h first rest leaf hsome)

/-- A turn of the loop over the tokens goes through exactly where nothing of the token throws,
whatever was found before. -/
theorem judgeToken_ok_iff {anchors : List (String × κ)} (hanchors : pinnedAnchors N o = .ok anchors)
    (found : TokenProblems) (e : String × Jwt) :
    (∃ found', judgeToken N H o anchors found e = .ok found') ↔ TokenContained N H o e.2 := by
  obtain ⟨id, t⟩ := e
  cases hheader : t.header.nullish with
  | true =>
    constructor
    · rintro ⟨found', h⟩
      obtain ⟨alg, halg, -⟩ := bind_eq_ok.mp h
      rw [not_nullish_of_read halg] at hheader
      cases hheader
    · rintro ⟨hcontained, -, -, -⟩
      rw [hcontained] at hheader
      cases hheader
  | false =>
    obtain ⟨alg, halg⟩ := read_eq_ok hheader "alg"
    obtain ⟨kid, hkid⟩ := read_eq_ok hheader "kid"
    rw [tokenContained_iff_of_read hheader halg hkid, judgeToken]
    simp only [halg, ok_bind]
    by_cases hes : alg = .str "ES384"
    · subst hes
      have hstrict : (JsValue.str "ES384").strictEquals (.str "ES384") = true :=
        strictEquals_str_iff.mpr rfl
      simp only [hstrict, Bool.not_true, Bool.false_eq_true, if_false, hkid, ok_bind, ne_eq,
        not_true_eq_false, false_imp_iff, true_and, forall_const]
      cases hjwk : jwkOf o kid with
      | none =>
        dsimp only
        rw [exists_bind_iff]
        constructor
        · rintro ⟨text, htext, -⟩
          exact ⟨fun _ => ⟨text, htext⟩, fun jwk h => by cases h⟩
        · rintro ⟨htext, -⟩
          obtain ⟨text, htext⟩ := htext rfl
          exact ⟨text, htext, _, rfl⟩
      | some jwk =>
        simp only [reduceCtorEq, false_imp_iff, true_and, Option.some.injEq, forall_eq']
        cases hx5c : jwk.x5c.getD [] with
        | nil =>
          refine iff_of_true ⟨_, rfl⟩ (keyContained_of_no_leaf fun first rest leaf hsome => ?_)
          rw [hsome] at hx5c
          cases hx5c
        | cons first rest =>
          have hsome : jwk.x5c = some (first :: rest) := by
            cases hjwk' : jwk.x5c with
            | none =>
              rw [hjwk'] at hx5c
              cases hx5c
            | some certs =>
              rw [hjwk'] at hx5c
              exact congrArg some hx5c
          dsimp only
          cases hleaf : N.certificate (N.base64 first) with
          | error message =>
            refine iff_of_true ⟨_, rfl⟩ (keyContained_of_no_leaf fun first' rest' leaf hsome' => ?_)
            rw [hsome] at hsome'
            cases hsome'
            rw [hleaf]
            exact fun h => by cases h
          | ok leaf =>
            dsimp only
            rw [judgeLeaf_ok_iff, keyContained_iff_of_leaf hanchors hsome hleaf]
    · have hstrict : alg.strictEquals (.str "ES384") = false :=
        Bool.eq_false_iff.mpr fun h => hes (strictEquals_str_iff.mp h)
      simp only [hstrict, Bool.not_false, if_true, hes, false_imp_iff, and_true, ne_eq,
        not_false_eq_true, forall_const]
      rw [exists_bind_iff]
      constructor
      · rintro ⟨text, htext, -⟩
        exact ⟨text, htext⟩
      · rintro ⟨text, htext⟩
        exact ⟨text, htext, _, rfl⟩

/-! ## The verifier -/

theorem pinnedAnchors_ok_iff : (∃ anchors, pinnedAnchors N o = .ok anchors) ↔
    ∀ a ∈ o.anchors.getD N.NRAS_ANCHORS, ∃ cert, N.certificate a.der = .ok cert := by
  rw [pinnedAnchors, exists_mapM_iff]
  refine forall₂_congr fun a _ => ?_
  rw [exists_bind_iff]
  exact ⟨fun ⟨cert, hcert, _⟩ => ⟨cert, hcert⟩, fun ⟨cert, hcert⟩ => ⟨cert, hcert, _, rfl⟩⟩

theorem eatNonceText_ok_iff {t : Jwt} : (∃ text, eatNonceText H t = .ok text) ↔
    ((t.claim "eat_nonce").nullish = false → (t.claim "eat_nonce").HasText H) := by
  rw [eatNonceText]
  split_ifs with hnullish
  · refine iff_of_true ⟨_, rfl⟩ fun h => ?_
    rw [hnullish] at h
    cases h
  · rw [Bool.not_eq_true] at hnullish
    exact ⟨fun h _ => h, fun h => h hnullish⟩

theorem overallCheck_ok_iff {overall : Jwt} : (∃ c, overallCheck N H o overall = .ok c) ↔
    (overall.claim "iss" ≠ .str (o.issuer.getD NRAS_ISSUER) → (overall.claim "iss").HasText H) := by
  rw [overallCheck]
  by_cases hiss : overall.claim "iss" = .str (o.issuer.getD NRAS_ISSUER)
  · rw [hiss, strictEquals_str_iff.mpr rfl]
    exact iff_of_true ⟨_, rfl⟩ fun h => absurd rfl h
  · rw [Bool.eq_false_iff.mpr fun h => hiss (strictEquals_str_iff.mp h), Bool.not_false, if_pos rfl,
      exists_bind_iff]
    constructor
    · rintro ⟨text, htext, -⟩ -
      exact ⟨text, htext⟩
    · intro htext
      obtain ⟨text, htext⟩ := htext hiss
      exact ⟨text, htext, _, rfl⟩

theorem judgeSubmod_ok_iff {overall : Jwt} (found : List String × String) (e : String × Jwt) :
    (∃ found', judgeSubmod N H overall found e = .ok found') ↔
      ∀ digest, submodDigest overall e.1 = some digest → digest.HasText H := by
  rw [judgeSubmod]
  cases submodDigest overall e.1 with
  | none => exact iff_of_true ⟨_, rfl⟩ nofun
  | some digest =>
    rw [exists_bind_iff]
    constructor
    · rintro ⟨text, htext, -⟩ digest' hdigest
      cases hdigest
      exact ⟨text, htext⟩
    · intro h
      obtain ⟨text, htext⟩ := h digest rfl
      exact ⟨text, htext, _, rfl⟩

theorem submodsCheck_ok_iff {overall : Jwt} {gpuTokens : List (String × Jwt)} :
    (∃ c, submodsCheck N H o overall gpuTokens = .ok c) ↔
      ∀ e ∈ gpuTokens, ∀ digest, submodDigest overall e.1 = some digest → digest.HasText H := by
  rw [submodsCheck, exists_bind_iff, ← exists_foldlM_iff judgeSubmod_ok_iff gpuTokens ([], "")]
  exact ⟨fun ⟨found, hfound, _⟩ => ⟨found, hfound⟩, fun ⟨found, hfound⟩ => ⟨found, hfound, _, rfl⟩⟩

theorem issuedAt_ok_iff {overall : Jwt} : (∃ text, issuedAt overall = .ok text) ↔
    ∀ iat, overall.numberClaim "iat" = some iat → iat.thousandfold.timeClip.isSome = true := by
  rw [issuedAt]
  cases overall.numberClaim "iat" with
  | none => exact iff_of_true ⟨_, rfl⟩ fun iat hiat => (by cases hiat)
  | some iat =>
    dsimp only
    rw [toISOString]
    cases hclip : iat.thousandfold.timeClip with
    | none =>
      refine iff_of_false ?_ fun h => ?_
      · rintro ⟨text, htext⟩
        cases htext
      · have := h iat rfl
        rw [hclip] at this
        cases this
    | some t =>
      refine iff_of_true ⟨_, rfl⟩ fun iat' hiat => ?_
      cases hiat
      rw [hclip]
      rfl

theorem verifyTokens_ok_iff {overall : Jwt} {gpuTokens : List (String × Jwt)} :
    (∃ report, verifyTokens N H o overall gpuTokens = .ok report) ↔
      ResultContained N H o overall gpuTokens := by
  have hnonces : (∃ nonces, ((("overall", overall) :: gpuTokens).mapM fun e => do
        let text ← eatNonceText H e.2
        return (e.1, text)) = .ok nonces) ↔
      ∀ e ∈ ("overall", overall) :: gpuTokens,
        (e.2.claim "eat_nonce").nullish = false → (e.2.claim "eat_nonce").HasText H := by
    rw [exists_mapM_iff]
    refine forall₂_congr fun e _ => ?_
    rw [← eatNonceText_ok_iff, exists_bind_iff]
    exact ⟨fun ⟨text, htext, _⟩ => ⟨text, htext⟩, fun ⟨text, htext⟩ => ⟨text, htext, _, rfl⟩⟩
  constructor
  · rintro ⟨report, h⟩
    obtain ⟨anchors, hanchors, h⟩ := bind_eq_ok.mp h
    obtain ⟨found, hfound, h⟩ := bind_eq_ok.mp h
    obtain ⟨nonces, hnonces', h⟩ := bind_eq_ok.mp h
    obtain ⟨overallResult, hoverall, h⟩ := bind_eq_ok.mp h
    obtain ⟨submods, hsubmods, h⟩ := bind_eq_ok.mp h
    obtain ⟨iat, hiat, -⟩ := bind_eq_ok.mp h
    exact {
      anchors := pinnedAnchors_ok_iff.mp ⟨anchors, hanchors⟩
      tokens := (exists_foldlM_iff (judgeToken_ok_iff hanchors) _ _).mp ⟨found, hfound⟩
      nonces := hnonces.mp ⟨nonces, hnonces'⟩
      issuer := overallCheck_ok_iff.mp ⟨overallResult, hoverall⟩
      submods := submodsCheck_ok_iff.mp ⟨submods, hsubmods⟩
      date := issuedAt_ok_iff.mp ⟨iat, hiat⟩ }
  · intro h
    obtain ⟨anchors, hanchors⟩ := pinnedAnchors_ok_iff.mpr h.anchors
    obtain ⟨found, hfound⟩ := (exists_foldlM_iff (judgeToken_ok_iff hanchors) _ {}).mpr h.tokens
    obtain ⟨nonces, hnonces'⟩ := hnonces.mpr h.nonces
    obtain ⟨overallResult, hoverall⟩ := overallCheck_ok_iff.mpr h.issuer
    obtain ⟨submods, hsubmods⟩ := submodsCheck_ok_iff.mpr h.submods
    obtain ⟨iat, hiat⟩ := issuedAt_ok_iff.mpr h.date
    refine exists_bind_iff.mpr ⟨anchors, hanchors, exists_bind_iff.mpr ⟨found, hfound, ?_⟩⟩
    refine exists_bind_iff.mpr ⟨nonces, hnonces', exists_bind_iff.mpr ⟨overallResult, hoverall, ?_⟩⟩
    exact exists_bind_iff.mpr ⟨submods, hsubmods, exists_bind_iff.mpr ⟨iat, hiat, _, rfl⟩⟩

/-- The verifier returns exactly where the result does not parse, or nothing that is read of it
behind the guard throws. -/
theorem verifyNrasResult_returns_iff (N : NvidiaHost κ) (H : Host) (o : VerifyNvidiaOptions)
    (result : JsValue) :
    (∃ report, verifyNrasResult N H o result = .ok report) ↔
      ∀ overall gpuTokens, parseResult N result = .ok (overall, gpuTokens) →
        ResultContained N H o overall gpuTokens := by
  rw [verifyNrasResult]
  cases hparsed : parseResult N result with
  | error message => exact iff_of_true ⟨_, rfl⟩ nofun
  | ok parsed =>
    obtain ⟨overall, gpuTokens⟩ := parsed
    dsimp only
    rw [verifyTokens_ok_iff]
    constructor
    · rintro h overall' gpuTokens' ⟨⟩
      exact h
    · intro h
      exact h overall gpuTokens rfl

end

namespace Reference

/-- A host that spells the few texts of the results below. -/
def nvidiaHost : NvidiaHost Unit where
  jsonParse text :=
    if text = "null" then .ok .null
    else if text = "\x7b\x7d" then .ok (.object [])
    else if text = "\x7b\"iat\":1e13\x7d" then
      .ok (.object [("iat", .num (.ofInt 10000000000000))])
    else .error "Unexpected end of JSON input"
  jsonText _ := "undefined"
  base64 text :=
    if text = "bnVsbA" then utf8 "null"
    else if text = "e30" then utf8 "\x7b\x7d"
    else if text = "eyJpYXQiOjFlMTN9" then utf8 "\x7b\"iat\":1e13\x7d"
    else []
  utf8Text bytes := String.ofList (bytes.map fun byte => Char.ofNat byte.toNat)
  lower text := text
  dateNow := .ofInt 1700000000000
  NRAS_ANCHORS := []
  certificate _ := .error "not a certificate"
  fingerprint256 _ := ""
  subject _ := ""
  validFrom _ := .nan
  validTo _ := .nan
  checkIssued _ _ := false
  verify _ _ := .ok false
  exportJwk _ := .error "unsupported"
  cryptoVerify _ _ _ := .ok false

/-- A result of an overall token and one of a GPU. -/
def nrasResult (overall gpu : String) : JsValue :=
  .array [.array [.str "JWT", .str overall], .object [("GPU-0", .str gpu)]]

/-- A header that is null, and a time of issue outside the range of dates, are parsed and throw. -/
theorem hostile_tokens_throw :
    (¬∃ report, verifyNrasResult nvidiaHost host { jwks := [] }
        (nrasResult "bnVsbA.e30." "e30.e30.") = .ok report) ∧
      ¬∃ report, verifyNrasResult nvidiaHost host { jwks := [] }
        (nrasResult "e30.eyJpYXQiOjFlMTN9." "e30.e30.") = .ok report := by
  have hthrows : ∀ {x : Except String NvidiaVerification}, x.isOk = false →
      ¬∃ report, x = .ok report := by
    rintro x hx ⟨report, rfl⟩
    cases hx
  exact ⟨hthrows (by decide +kernel), hthrows (by decide +kernel)⟩

end Reference

end CoolSdk
