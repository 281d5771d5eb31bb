import CoolSdk.Core.Transition
import CoolSdk.Nitro.Authenticated

/-!
# The nonce ledger

Claims that are not authenticated have no influence: the checks do not depend on them, and the
ledger is neither read nor written. So over any run of verifications that share a ledger, a nonce is
recorded by an authenticated document that answers its challenge, and no challenge is answered
twice.
-/

namespace CoolSdk.Nitro

/-- The options with a ledger that is shared, where they ask for a nonce. -/
def sharing (o : VerifyNitroOptions) (seen : NonceLedger) : VerifyNitroOptions :=
  match o.freshness with
  | some (.nonce expected _) => { o with freshness := some (.nonce expected (some seen)) }
  | _ => o

/-- A verification: the bytes, the options and the clock. -/
structure Verification where
  raw : Bytes
  options : VerifyNitroOptions
  dateNow : JsNumber

/-- A shared ledger, and what has been reported so far. -/
structure LedgerState where
  seen : NonceLedger
  reports : List (Verification × NitroAttestationReport)

/-- What is reported of the checks. -/
def verdict (result : NitroAttestationReport × Option NonceLedger) : Checks × OverallStatus :=
  (result.1.checks, result.1.overallStatus)

/-- A verification that asks for a challenge finds it fresh. -/
def FindsFresh (challenge : Bytes) (o : VerifyNitroOptions) (report : NitroAttestationReport) :
    Prop :=
  (∃ ledger, o.freshness = some (.nonce challenge ledger)) ∧
    ∃ c, Entries.get report.checks "freshness" = some c ∧ c.status = .pass

section

variable {κ : Type} (N : NitroHost κ) (H : Host)

/-- The host at another time. -/
def NitroHost.clock (dateNow : JsNumber) : NitroHost κ := { N with dateNow }

/-- What the verifier finds of trust root, chain and signature. -/
def authenticated (o : VerifyNitroOptions) (doc : Decoded) : Except String Authentication :=
  authenticate N H (o.trustBundle.getD N.AWS_NITRO_TRUST_BUNDLE) o doc (o.now.getD N.dateNow)

/-- The bytes are a document that is authenticated and carries the challenge that is asked for. -/
def Answers (o : VerifyNitroOptions) (raw challenge : Bytes) : Prop :=
  (∃ ledger, o.freshness = some (.nonce challenge ledger)) ∧
    ∃ doc a, decodeDocument N H raw (o.maxBytes.getD (16 * 1024)) = .ok doc ∧
      authenticated N H o doc = .ok a ∧ a.verified = true ∧ doc.nonce = some challenge

/-- One more verification. Where one throws, it does so before it looks at the ledger. -/
def verifyShared (s : LedgerState) (v : Verification) : LedgerState :=
  match verifyNitroAttestation (N.clock v.dateNow) H v.raw (sharing v.options s.seen) with
  | .error _ => s
  | .ok (report, ledger) =>
    { seen := ledger.getD s.seen, reports := s.reports ++ [(v, report)] }

/-- Verifications that share a ledger, from what it has seen before. -/
def ledgerSystem (seen : NonceLedger) : TransitionSystem LedgerState Verification where
  init s := s = { seen, reports := [] }
  step s v s' := s' = verifyShared N H s v

end

section

variable {κ : Type} {N : NitroHost κ} {H : Host} {o : VerifyNitroOptions} {doc : Decoded}
  {raw : Bytes} {seen : NonceLedger}

/-! ## Documents that are not authenticated -/

theorem sharing_of_nonce {expected : Bytes} {ledger : Option NonceLedger}
    (h : o.freshness = some (.nonce expected ledger)) :
    sharing o seen = { o with freshness := some (.nonce expected (some seen)) } := by
  rw [sharing, h]

/-- Options that ask for no nonce have no ledger. -/
theorem sharing_of_other (h : ∀ expected ledger, o.freshness ≠ some (.nonce expected ledger)) :
    sharing o seen = o ∧ o.ledger = none := by
  rw [sharing, VerifyNitroOptions.ledger]
  cases hrule : o.freshness with
  | none => exact ⟨rfl, rfl⟩
  | some rule =>
    cases rule with
    | nonce expected ledger => exact absurd hrule (h expected ledger)
    | timestampWindow maxAgeMs clockSkewMs => exact ⟨rfl, rfl⟩

theorem ledger_sharing : (sharing o seen).ledger.getD seen = seen := by
  by_cases h : ∃ expected ledger, o.freshness = some (.nonce expected ledger)
  · obtain ⟨expected, ledger, hnonce⟩ := h
    rw [sharing_of_nonce hnonce]
    rfl
  · obtain ⟨hsame, hnone⟩ := sharing_of_other fun expected ledger hnonce =>
      h ⟨expected, ledger, hnonce⟩
    rw [hsame, hnone]
    rfl

theorem authenticated_sharing :
    authenticated N H (sharing o seen) doc = authenticated N H o doc := by
  unfold sharing
  split <;> rfl

theorem maxBytes_sharing : (sharing o seen).maxBytes = o.maxBytes := by
  unfold sharing
  split <;> rfl

/-- The verifier over what it finds of trust root, chain and signature. -/
theorem verify_of_decoded (hdoc : decodeDocument N H raw (o.maxBytes.getD (16 * 1024)) = .ok doc) :
    verifyNitroAttestation N H raw o = authenticated N H o doc >>= fun a =>
      claimChecks H a.verified doc o (o.now.getD N.dateNow) >>= fun claims =>
        .ok (decodedReport H (o.trustBundle.getD N.AWS_NITRO_TRUST_BUNDLE) o raw doc a claims.1,
          claims.2) := by
  unfold verifyNitroAttestation
  rw [hdoc]
  rfl

/-- The checks of claims that are not authenticated. -/
def unverifiedClaims : Checks :=
  let c := NOT_CHECKED ("not evaluated: trust root, certificate chain and signature must all " ++
    "pass before claims are used")
  (REQUIRED.drop 4).map fun name => (name, c)

theorem claimChecks_unverified {now : JsNumber} :
    claimChecks H false doc o now = .ok (unverifiedClaims, o.ledger) := rfl

/-- What is reported of a document that is not authenticated depends on its authentication
alone. -/
theorem verdict_unverified (hdoc : decodeDocument N H raw (o.maxBytes.getD (16 * 1024)) = .ok doc)
    (hunverified : ∀ a, authenticated N H o doc = .ok a → a.verified = false) :
    (verifyNitroAttestation N H raw o).map verdict = (authenticated N H o doc).map fun a =>
      (reportedChecks a unverifiedClaims,
        (overallOf (reportedChecks a unverifiedClaims) REQUIRED).1) := by
  rw [verify_of_decoded hdoc]
  cases ha : authenticated N H o doc with
  | error message => rfl
  | ok a =>
    rw [ok_bind, hunverified a ha, claimChecks_unverified, ok_bind]
    simp only [Except.map, verdict, decodedReport]

/-- The ledger is as it was. -/
theorem ledger_unverified {result : NitroAttestationReport × Option NonceLedger}
    (hdoc : decodeDocument N H raw (o.maxBytes.getD (16 * 1024)) = .ok doc)
    (hunverified : ∀ a, authenticated N H o doc = .ok a → a.verified = false)
    (h : verifyNitroAttestation N H raw o = .ok result) : result.2 = o.ledger := by
  rw [verify_of_decoded hdoc] at h
  obtain ⟨a, ha, h⟩ := bind_eq_ok.mp h
  rw [hunverified a ha, claimChecks_unverified, ok_bind] at h
  obtain rfl := Except.ok.inj h
  rfl

/-! ## One verification -/

/-- The check of a nonce fails and leaves the ledger as it was, or the document carries the
challenge, which the ledger has not seen and then has. -/
theorem verifyNonce_spec (doc : Decoded) (expected : Bytes) (seen : NonceLedger) :
    (verifyNonce doc expected (some seen)).1.status ≠ .pass ∧
        (verifyNonce doc expected (some seen)).2 = some seen ∨
      doc.nonce = some expected ∧ toHex expected ∉ seen ∧
        (verifyNonce doc expected (some seen)).2 = some (toHex expected :: seen) := by
  rw [verifyNonce]
  split
  · exact .inl ⟨fun hpass => (by cases hpass), rfl⟩
  · rename_i nonce hnonce
    split_ifs with hdiffers
    · exact .inl ⟨fun hpass => (by cases hpass), rfl⟩
    · rw [Bool.not_eq_true', Bool.not_eq_false, bytesEqual_iff] at hdiffers
      subst hdiffers
      dsimp only
      split_ifs with hreplayed
      · exact .inl ⟨fun hpass => (by cases hpass), rfl⟩
      · exact .inr ⟨hnonce, by simpa using hreplayed, rfl⟩

theorem verifyFreshness_other {now : JsNumber}
    (h : ∀ expected ledger, o.freshness ≠ some (.nonce expected ledger)) :
    (verifyFreshness H doc o now).2 = none := by
  rw [verifyFreshness]
  split
  · rfl
  · rename_i expected ledger hnonce
    exact absurd hnonce (h expected ledger)
  · rfl

/-- A verification leaves a shared ledger as it was and finds no challenge fresh, or an
authenticated document answers a challenge that the ledger has not seen. -/
theorem verify_sharing_spec {report : NitroAttestationReport} {ledger : Option NonceLedger}
    (h : verifyNitroAttestation N H raw (sharing o seen) = .ok (report, ledger)) :
    (ledger.getD seen = seen ∧ ∀ challenge, ¬FindsFresh challenge o report) ∨
      ∃ challenge, Answers N H o raw challenge ∧ toHex challenge ∉ seen ∧
        ledger = some (toHex challenge :: seen) := by
  cases hdoc : decodeDocument N H raw ((sharing o seen).maxBytes.getD (16 * 1024)) with
  | error e =>
    unfold verifyNitroAttestation at h
    rw [hdoc] at h
    obtain ⟨rfl, rfl⟩ := Prod.mk.inj (Except.ok.inj h)
    refine .inl ⟨ledger_sharing, ?_⟩
    rintro challenge ⟨-, c, hc, hpass⟩
    cases hc
    cases hpass
  | ok doc =>
    rw [verify_of_decoded hdoc] at h
    obtain ⟨a, ha, h⟩ := bind_eq_ok.mp h
    obtain ⟨claims, hclaims, h⟩ := bind_eq_ok.mp h
    obtain ⟨rfl, rfl⟩ := Prod.mk.inj (Except.ok.inj h)
    rw [authenticated_sharing] at ha
    rw [maxBytes_sharing] at hdoc
    cases hverified : a.verified with
    | false =>
      rw [hverified] at hclaims
      obtain rfl := Except.ok.inj hclaims
      refine .inl ⟨ledger_sharing, ?_⟩
      rintro challenge ⟨-, c, hc, hpass⟩
      cases hc
      cases hpass
    | true =>
      rw [hverified] at hclaims
      obtain ⟨bind, -, hclaims⟩ := bind_eq_ok.mp hclaims
      obtain rfl := Except.ok.inj hclaims
      by_cases hrule : ∃ expected ledger, o.freshness = some (.nonce expected ledger)
      · obtain ⟨expected, ledger, hnonce⟩ := hrule
        have hfreshness : ∀ now, verifyFreshness H doc (sharing o seen) now =
            verifyNonce doc expected (some seen) := by
          intro now
          rw [sharing_of_nonce hnonce]
          rfl
        dsimp only
        rw [hfreshness]
        rcases verifyNonce_spec doc expected seen with ⟨hfails, hsame⟩ | ⟨hcarries, hnew, hadded⟩
        · refine .inl ⟨?_, ?_⟩
          · rw [hsame]
            rfl
          · rintro challenge ⟨-, c, hc, hpass⟩
            cases hc
            exact hfails hpass
        · exact .inr ⟨expected, ⟨⟨ledger, hnonce⟩, doc, a, hdoc, ha, hverified, hcarries⟩, hnew,
            hadded⟩
      · have hother : ∀ expected ledger, o.freshness ≠ some (.nonce expected ledger) :=
          fun expected ledger hnonce => hrule ⟨expected, ledger, hnonce⟩
        obtain ⟨hsame, -⟩ := sharing_of_other hother
        refine .inl ⟨?_, fun challenge hfresh => ?_⟩
        · dsimp only
          rw [hsame, verifyFreshness_other hother]
          rfl
        · obtain ⟨ledger, hnonce⟩ := hfresh.1
          exact hrule ⟨challenge, ledger, hnonce⟩

/-! ## Runs -/

/-- What holds of a shared ledger: each nonce was there before or answers a challenge, every
challenge that was found fresh is there, and none was found fresh twice. -/
structure LedgerState.Inv (N : NitroHost κ) (H : Host) (before : NonceLedger) (s : LedgerState) :
    Prop where
  recorded : ∀ nonce ∈ s.seen, nonce ∈ before ∨ ∃ e ∈ s.reports, ∃ challenge,
    nonce = toHex challenge ∧ Answers (N.clock e.1.dateNow) H e.1.options e.1.raw challenge
  consumed : ∀ e ∈ s.reports, ∀ challenge, FindsFresh challenge e.1.options e.2 →
    toHex challenge ∈ s.seen
  once : s.reports.Pairwise fun e e' =>
    ∀ challenge, FindsFresh challenge e.1.options e.2 → ¬FindsFresh challenge e'.1.options e'.2

variable {before : NonceLedger} {s : LedgerState}

/-- A verification keeps it. -/
theorem LedgerState.Inv.verifyShared (h : s.Inv N H before) (v : Verification) :
    (verifyShared N H s v).Inv N H before := by
  rw [Nitro.verifyShared]
  split
  · exact h
  · rename_i report ledger hreport
    rcases verify_sharing_spec hreport with ⟨hsame, hstale⟩ |
      ⟨challenge, hanswers, hnew, hadded⟩
    · refine ⟨?_, ?_, ?_⟩
      · dsimp only
        rw [hsame]
        intro nonce hnonce
        refine (h.recorded nonce hnonce).imp_right ?_
        rintro ⟨e, he, hrest⟩
        exact ⟨e, List.mem_append_left _ he, hrest⟩
      · dsimp only
        rw [hsame]
        intro e he challenge hfresh
        rcases List.mem_append.mp he with he | he
        · exact h.consumed e he challenge hfresh
        · rw [List.mem_singleton.mp he] at hfresh
          exact absurd hfresh (hstale challenge)
      · refine List.pairwise_append.mpr ⟨h.once, List.pairwise_singleton _ _, ?_⟩
        intro e _ e' he' challenge _ hfresh
        rw [List.mem_singleton.mp he'] at hfresh
        exact hstale challenge hfresh
    · have hchallenge : ∀ challenge', FindsFresh challenge' v.options report →
          challenge' = challenge := by
        rintro challenge' ⟨⟨ledger', hrule'⟩, -⟩
        obtain ⟨⟨ledger'', hrule⟩, -⟩ := hanswers
        rw [hrule] at hrule'
        cases hrule'
        rfl
      refine ⟨?_, ?_, ?_⟩
      · dsimp only
        rw [hadded, Option.getD_some]
        intro nonce hnonce
        rcases List.mem_cons.mp hnonce with rfl | hnonce
        · exact .inr ⟨(v, report), List.mem_append_right _ (List.mem_singleton_self _), challenge,
            rfl, hanswers⟩
        · refine (h.recorded nonce hnonce).imp_right ?_
          rintro ⟨e, he, hrest⟩
          exact ⟨e, List.mem_append_left _ he, hrest⟩
      · dsimp only
        rw [hadded, Option.getD_some]
        intro e he challenge' hfresh
        rcases List.mem_append.mp he with he | he
        · exact List.mem_cons_of_mem _ (h.consumed e he challenge' hfresh)
        · rw [List.mem_singleton.mp he] at hfresh
          rw [hchallenge challenge' hfresh]
          exact List.mem_cons_self
      · refine List.pairwise_append.mpr ⟨h.once, List.pairwise_singleton _ _, ?_⟩
        intro e he e' he' challenge' hfresh hfresh'
        rw [List.mem_singleton.mp he'] at hfresh'
        rw [hchallenge challenge' hfresh'] at hfresh
        exact hnew (h.consumed e he challenge hfresh)

theorem ledgerState_inv (h : (ledgerSystem N H before).Reachable s) : s.Inv N H before := by
  refine h.invariant ?_ ?_
  · rintro s rfl
    exact ⟨fun nonce hnonce => .inl hnonce, fun e he => (List.not_mem_nil he).elim, .nil⟩
  · rintro s v s' hs rfl
    exact hs.verifyShared v

/-- Documents that are not authenticated, with the same authentication, have the same checks and
status, whatever else they hold, and the ledger is neither read nor written. Over any run of
verifications that share a ledger, a nonce that is recorded is that of an authenticated document
that carries the challenge that was asked for, and no challenge is found fresh twice. -/
theorem unverified_claims_inert (N : NitroHost κ) (H : Host) :
    (∀ o raw₁ raw₂ doc₁ doc₂,
      decodeDocument N H raw₁ (o.maxBytes.getD (16 * 1024)) = .ok doc₁ →
      decodeDocument N H raw₂ (o.maxBytes.getD (16 * 1024)) = .ok doc₂ →
      authenticated N H o doc₁ = authenticated N H o doc₂ →
      (∀ a, authenticated N H o doc₁ = .ok a → a.verified = false) →
      (verifyNitroAttestation N H raw₁ o).map verdict =
          (verifyNitroAttestation N H raw₂ o).map verdict ∧
        ∀ seen, (verifyNitroAttestation N H raw₁ (sharing o seen)).map verdict =
            (verifyNitroAttestation N H raw₁ o).map verdict ∧
          ∀ result, verifyNitroAttestation N H raw₁ (sharing o seen) = .ok result →
            result.2 = (sharing o seen).ledger) ∧
    ∀ before s, (ledgerSystem N H before).Reachable s →
      (∀ nonce ∈ s.seen, nonce ∈ before ∨ ∃ e ∈ s.reports, ∃ challenge, nonce = toHex challenge ∧
        Answers (N.clock e.1.dateNow) H e.1.options e.1.raw challenge) ∧
      s.reports.Pairwise fun e e' => ∀ challenge,
        FindsFresh challenge e.1.options e.2 → ¬FindsFresh challenge e'.1.options e'.2 := by
  constructor
  · intro o raw₁ raw₂ doc₁ doc₂ hdoc₁ hdoc₂ hsame hunverified
    have hdoc₁' : ∀ seen, decodeDocument N H raw₁ ((sharing o seen).maxBytes.getD (16 * 1024)) =
        .ok doc₁ := by
      intro seen
      rw [maxBytes_sharing]
      exact hdoc₁
    have hunverified' : ∀ seen a, authenticated N H (sharing o seen) doc₁ = .ok a →
        a.verified = false := by
      intro seen a ha
      rw [authenticated_sharing] at ha
      exact hunverified a ha
    refine ⟨?_, fun seen => ⟨?_, fun result hresult => ?_⟩⟩
    · rw [verdict_unverified hdoc₁ hunverified, hsame]
      rw [hsame] at hunverified
      exact (verdict_unverified hdoc₂ hunverified).symm
    · rw [verdict_unverified (hdoc₁' seen) (hunverified' seen), authenticated_sharing]
      exact (verdict_unverified hdoc₁ hunverified).symm
    · exact ledger_unverified (hdoc₁' seen) (hunverified' seen) hresult
  · intro before s hs
    have hinv := ledgerState_inv hs
    exact ⟨hinv.recorded, hinv.once⟩

end

end CoolSdk.Nitro

namespace CoolSdk.Reference

open Nitro

/-- No root is trusted. -/
def untrusting : VerifyNitroOptions :=
  { trustBundle := some { id := "none", version := "1", roots := [] } }

/-- The document that answers the challenge 42, when that is asked for. -/
def answering : Verification :=
  { raw := attestedDocument 42, options := { freshness := some (.nonce [42] none) }
    dateNow := .ofInt 1700000001000 }

/-- The state after it has been verified twice. -/
def answeredTwice : LedgerState :=
  [answering, answering].foldl (verifyShared attestingHost totalHost) { seen := [], reports := [] }

theorem unverified_claims_inert_untrusted :
    (verifyNitroAttestation attestingHost totalHost (attestedDocument 42) untrusting).map verdict =
        (verifyNitroAttestation attestingHost totalHost (attestedDocument 43) untrusting).map
          verdict ∧
      answeredTwice.seen = [toHex [42]] ∧ answeredTwice.reports.length = 2 ∧
      answeredTwice.reports.Pairwise fun e e' => ∀ challenge,
        FindsFresh challenge e.1.options e.2 → ¬FindsFresh challenge e'.1.options e'.2 := by
  have hseen : answeredTwice.seen = [toHex [42]] := by decide +kernel
  have hreports : answeredTwice.reports.length = 2 := by decide +kernel
  obtain ⟨hinert, hruns⟩ := unverified_claims_inert attestingHost totalHost
  have hreached : (ledgerSystem attestingHost totalHost []).Reachable answeredTwice :=
    TransitionSystem.reachable_foldl (fun _ _ => rfl) rfl _
  refine ⟨?_, hseen, hreports, (hruns [] answeredTwice hreached).2⟩
  have hsame : (decodeDocument attestingHost totalHost (attestedDocument 42)
        (16 * 1024)).toOption.map (authenticated attestingHost totalHost untrusting) =
      (decodeDocument attestingHost totalHost (attestedDocument 43)
        (16 * 1024)).toOption.map (authenticated attestingHost totalHost untrusting) := by
    decide +kernel
  have hunverified : (decodeDocument attestingHost totalHost (attestedDocument 42)
      (16 * 1024)).toOption.map (fun doc =>
        (authenticated attestingHost totalHost untrusting doc).toOption.map
          Authentication.verified) = some (some false) := by
    decide +kernel
  cases hdoc₁ : decodeDocument attestingHost totalHost (attestedDocument 42) (16 * 1024) with
  | error e =>
    rw [hdoc₁] at hunverified
    cases hunverified
  | ok doc₁ =>
    rw [hdoc₁] at hsame hunverified
    cases hdoc₂ : decodeDocument attestingHost totalHost (attestedDocument 43) (16 * 1024) with
    | error e =>
      rw [hdoc₂] at hsame
      cases hsame
    | ok doc₂ =>
      rw [hdoc₂] at hsame
      refine (hinert untrusting _ _ doc₁ doc₂ hdoc₁ hdoc₂ (Option.some.inj hsame) ?_).1
      intro a ha
      rw [Except.toOption, Option.map_some, ha] at hunverified
      exact Option.some.inj (Option.some.inj hunverified)

end CoolSdk.Reference
