import CoolSdk.Phala.AnchorPaths
import CoolSdk.Phala.AttachWitness

/-!
# Soundness of anchors

A verifier passes the anchor of a receipt only where the attached proof leads from the digest of
the receipt's own root to the merkle roots of the blocks that it names.
-/

namespace CoolSdk

variable {H : Host} {A : Anchor.AnchorHost}

/-- The status of an anchor is a pass exactly where its proof, about the receipt's own head, is
confirmed. -/
theorem verifyAnchorDomain_pass {r : ReceiptFields} {options : VerifyArgsV2}
    (h : verifyAnchorDomain H A r options = .pass) :
    ∃ anchor sth bytes digest timestamp, r.anchor = some anchor ∧ r.sth = some sth ∧
      H.atob (utf8 anchor.proof) = .ok bytes ∧
      Anchor.parseProof H A bytes = .ok (digest, timestamp) ∧
      multihashDigest sth.core.rootHash = .ok digest ∧
      Anchor.verifyAnchor digest timestamp options.blockHeaders = .confirmed := by
  rw [verifyAnchorDomain] at h
  cases hanchor : r.anchor with
  | none =>
    rw [hanchor] at h
    cases h
  | some anchor =>
    cases hsth : r.sth with
    | none =>
      rw [hanchor, hsth] at h
      cases h
    | some sth =>
      rw [hanchor, hsth] at h
      dsimp only at h
      split_ifs at h with htarget hsize
      cases hproof : anchorProof H A anchor with
      | error e =>
        rw [hproof] at h
        cases h
      | ok parsed =>
        obtain ⟨digest, timestamp⟩ := parsed
        rw [hproof] at h
        dsimp only at h
        have hconfirmed : Anchor.verifyAnchor digest timestamp options.blockHeaders =
            .confirmed := by
          cases hstatus : Anchor.verifyAnchor digest timestamp options.blockHeaders <;>
            rw [hstatus] at h <;> first | rfl | cases h
        simp only [anchorProof, bind_eq_ok] at hproof
        obtain ⟨digest', hdigest, bytes, hbytes, ⟨about, stamp⟩, hparse, hproof⟩ := hproof
        split_ifs at hproof with hhex
        · cases hproof
        cases hproof
        have habout : about = digest := toHex_injective (not_not.mp hhex)
        rw [habout] at hparse
        rw [not_not.mp htarget] at hdigest
        exact ⟨anchor, sth, bytes, digest, stamp, rfl, rfl, hbytes, hparse, hdigest, hconfirmed⟩

/-- A verifier that passes a receipt's anchor was given a header source, and the anchor's proof
bytes lead from the digest of the receipt's own root to the merkle roots it returned. -/
theorem anchor_soundness {receipt : JsValue} {options : VerifyArgsV2} {verdict : VerdictV2}
    (h : verifyReceiptV2 H A receipt options = .ok verdict)
    (hpass : verdict.checks.anchor = .pass) :
    ∃ headers r anchor sth bytes digest timestamp, options.blockHeaders = some headers ∧
      readReceipt receipt = .ok r ∧ r.anchor = some anchor ∧ r.sth = some sth ∧
      H.atob (utf8 anchor.proof) = .ok bytes ∧
      Anchor.parseProof H A bytes = .ok (digest, timestamp) ∧
      multihashDigest sth.core.rootHash = .ok digest ∧
      Anchor.Confirms H A headers digest timestamp := by
  by_cases hshape : validateReceiptV2Shape receipt = []
  · have hread : ∃ r, readReceipt receipt = .ok r := by
      rw [verifyReceiptV2, if_neg (not_not_intro hshape)] at h
      obtain ⟨r, hr, -⟩ := bind_eq_ok.mp h
      exact ⟨r, hr⟩
    obtain ⟨r, hr⟩ := hread
    rw [(verdict_over hshape hr h).anchor] at hpass
    obtain ⟨anchor, sth, bytes, digest, timestamp, hanchor, hsth, hbytes, hparse, hdigest,
      hconfirmed⟩ := verifyAnchorDomain_pass hpass
    obtain ⟨-, hderived⟩ := Anchor.parseProof_derived hparse
    obtain ⟨-, headers, hheaders, hconfirms⟩ :=
      (Anchor.verifyAnchor_confirmed_iff hderived).mp hconfirmed
    exact ⟨headers, r, anchor, sth, bytes, digest, timestamp, hheaders, hr, hanchor, hsth, hbytes,
      hparse, hdigest, hconfirms⟩
  · rw [verifyReceiptV2, if_pos hshape] at h
    cases h
    cases hpass

/-- A receipt whose head is anchored by a proof: a block commits to what a byte behind the digest
makes of it, in reverse order. -/
def anchoredReceipt : JsValue :=
  match openReceipt [] [] with
  | .object members => .object (Entries.set members "anchor" (.object
      [("kind", .str "opentimestamps"), ("chain", .str "bitcoin"),
        ("target", .str (multihashOf 'f')), ("tree_size", .num (.ofInt 1)),
        ("proof", .str ("AE9wZW5UaW1lc3RhbXBzAABQcm9vZgC/ieLohOiSlAEI////////////////////" ++
          "///////////////////////wAQfyAAWIlg1z1xkBAWQ=")),
        ("submitted_at", .str "now"), ("calendars", .array []), ("heights", .array [])]))
  | v => v

/-- The header of the one block that the proof names. -/
def anchoredHeaders (height : Nat) : Option String :=
  if height = 100 then some (String.ofList (List.replicate 64 'F') ++ "07") else none

theorem anchor_soundness_anchoredReceipt :
    ∃ verdict, verifyReceiptV2 Reference.totalHost Reference.anchorHost anchoredReceipt
        { blockHeaders := some anchoredHeaders } = .ok verdict ∧ verdict.checks.anchor = .pass ∧
      ∃ headers r anchor sth bytes digest timestamp, some anchoredHeaders = some headers ∧
        readReceipt anchoredReceipt = .ok r ∧ r.anchor = some anchor ∧ r.sth = some sth ∧
        Reference.totalHost.atob (utf8 anchor.proof) = .ok bytes ∧
        Anchor.parseProof Reference.totalHost Reference.anchorHost bytes =
          .ok (digest, timestamp) ∧
        multihashDigest sth.core.rootHash = .ok digest ∧
        Anchor.Confirms Reference.totalHost Reference.anchorHost headers digest timestamp := by
  have hverdict : ∃ verdict, verifyReceiptV2 Reference.totalHost Reference.anchorHost
      anchoredReceipt { blockHeaders := some anchoredHeaders } = .ok verdict ∧
        verdict.checks.anchor = .pass := by
    have hrun : (verifyReceiptV2 Reference.totalHost Reference.anchorHost anchoredReceipt
        { blockHeaders := some anchoredHeaders }).map (fun v => v.checks.anchor) = .ok .pass := by
      decide +kernel
    obtain ⟨verdict, hverdict, hpass⟩ := ok_of_map_eq hrun
    exact ⟨verdict, hverdict, hpass⟩
  obtain ⟨verdict, hverdict, hpass⟩ := hverdict
  exact ⟨verdict, hverdict, hpass, anchor_soundness hverdict hpass⟩

end CoolSdk
