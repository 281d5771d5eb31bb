import CoolSdk.Authz.ScopePatterns
import CoolSdk.Platform.BundleVerification
import CoolSdk.Platform.SignerKeys

/-!
# What a manifest digest commits to

A manifest lists an envelope by its event id and its digest, and its entries in the order of
their digests, where entries with one digest stay in the order of the bundle. Equal manifest
digests therefore say that two bundles carry the same decisions and attachments and cite the same
envelopes, with whatever shares a digest listed in the same order. What an envelope holds beside
its event id and its digest is not listed, and the order of entries with one digest is no content.
-/

namespace CoolSdk

/-- An envelope with its payload and its key directory in deterministic member order. -/
def SignedEnvelope.ordered (e : SignedEnvelope) : SignedEnvelope :=
  { e with
    core := { e.core with
      payload := JsValue.sortMembers (JsValue.sortKeysMembers e.core.payload) }
    keyDirectory := .ofList
      (e.keyDirectory.entries.insertionSort fun x y => JsValue.keyLe x.1 y.1 = true) }

namespace EvidenceBundle

/-- The bundles carry the same envelopes, with every member, in whatever order. -/
def SameEnvelopes (b c : EvidenceBundle) : Prop :=
  (b.envelopes.map SignedEnvelope.ordered).Perm (c.envelopes.map SignedEnvelope.ordered)

/-- The bundles carry the same decisions, in whatever order. -/
def SameDecisions (b c : EvidenceBundle) : Prop :=
  (b.decisions.map fun d => (JsValue.object d).sortKeys).Perm
    (c.decisions.map fun d => (JsValue.object d).sortKeys)

/-- The bundles cite the same envelopes by event id and digest, in whatever order. -/
def SameCited (b c : EvidenceBundle) : Prop :=
  (b.envelopes.map fun e => (e.core.eventId, e.digest)).Perm
    (c.envelopes.map fun e => (e.core.eventId, e.digest))

/-- The bundles list the kinds of the attachments with one digest in the same order, and so the
event ids of the envelopes with one digest. -/
structure SameTies (b c : EvidenceBundle) : Prop where
  kinds : ∀ k, (fibre BundleAttachment.digest b.attached k).map BundleAttachment.kind =
    (fibre BundleAttachment.digest c.attached k).map BundleAttachment.kind
  eventIds : ∀ k, (fibre SignedEnvelope.digest b.envelopes k).map (fun e => e.core.eventId) =
    (fibre SignedEnvelope.digest c.envelopes k).map (fun e => e.core.eventId)

section

variable (H : Host)

/-- The bundles carry the same attachments, each a kind with the JSON form of a body. -/
def SameAttachments (b c : EvidenceBundle) : Prop :=
  (b.attached.map fun a => (a.kind, (H.jsonClone a.body).map JsValue.sortKeys)).Perm
    (c.attached.map fun a => (a.kind, (H.jsonClone a.body).map JsValue.sortKeys))

/-- The bundles carry the same. -/
structure SameContents (b c : EvidenceBundle) : Prop where
  envelopes : b.SameEnvelopes c
  decisions : b.SameDecisions c
  attachments : b.SameAttachments H c

/-- The bundles carry the same, as far as a manifest lists it. -/
structure SameListed (b c : EvidenceBundle) : Prop where
  cited : b.SameCited c
  decisions : b.SameDecisions c
  attachments : b.SameAttachments H c

/-- The verifier reports that a bundle matches its manifest and its attachments their digests. -/
def Attested (b : EvidenceBundle) : Prop :=
  ∃ o report, verifyBundle H b o = .ok (some report) ∧ report.Passes "manifest_valid" ∧
    ∃ c, Entries.get report.checks "attachments_bound" = some c ∧
      (c.status = .pass ∨ c.status = .notApplicable)

/-- What is hashed for the manifest and the attachments of a bundle. -/
inductive Hashed (b : EvidenceBundle) : Bytes → Prop
  | manifest {m : BundleManifest} {bytes : Bytes}
      (hm : manifestOf H b.envelopes b.decisions b.attached = .ok m)
      (hbytes : H.canonicalCbor (.array (m.entries.map toJs)) = .ok bytes) :
      Hashed b (utf8 "cool.bundle.manifest.v1\x00" ++ bytes)
  | decision {d : JsValue.Members} {bytes : Bytes} (hd : d ∈ b.decisions)
      (hbytes : H.canonicalCbor (.object d) = .ok bytes) : Hashed b bytes
  | attachment {a : BundleAttachment} {clone : JsValue} {bytes : Bytes} (ha : a ∈ b.attached)
      (hclone : H.jsonClone a.body = .ok clone) (hbytes : H.canonicalCbor clone = .ok bytes) :
      Hashed b bytes

/-- The digest tells apart whatever is hashed for either bundle. -/
def CollisionFree (b c : EvidenceBundle) : Prop :=
  ∀ x y, b.Hashed H x ∨ c.Hashed H x → b.Hashed H y ∨ c.Hashed H y →
    H.sha256 x = H.sha256 y → x = y

end

end EvidenceBundle

/-! ## Entries -/

section

variable {H : Host}

/-- The line of a decision, blank where it has none. -/
private def lineOf (H : Host) (d : JsValue.Members) : BundleManifestEntry :=
  match decisionEntry H d with
  | .ok line => line
  | .error _ => ⟨.decision, "", ""⟩

private theorem lineOf_eq {d : JsValue.Members} {line : BundleManifestEntry}
    (h : decisionEntry H d = .ok line) : lineOf H d = line := by
  rw [lineOf, h]

/-- The line of a decision names the digest of its encoding. -/
theorem digest_of_decisionEntry {d : JsValue.Members} {line : BundleManifestEntry}
    (h : decisionEntry H d = .ok line) :
    line.kind = .decision ∧
      ∃ bytes, H.canonicalCbor (.object d) = .ok bytes ∧ line.digest = mhSha256 H bytes := by
  obtain ⟨_, _, h⟩ := bind_eq_ok.mp h
  obtain ⟨_, _, h⟩ := bind_eq_ok.mp h
  obtain ⟨_, _, h⟩ := bind_eq_ok.mp h
  obtain ⟨bytes, hbytes, h⟩ := bind_eq_ok.mp h
  cases h
  exact ⟨rfl, bytes, hbytes, rfl⟩

/-- The text of a value in a template does not depend on the order of members. -/
theorem templateText_congr
    (htext : ∀ v w, v.plain = true → w.plain = true → v.sortKeys = w.sortKeys →
      H.textOf v = H.textOf w) {v w : JsValue} (hv : v.plain = true) (hw : w.plain = true)
    (h : v.sortKeys = w.sortKeys) : templateText H v = templateText H w := by
  by_cases hs : ∃ s, v = .str s
  · obtain ⟨s, rfl⟩ := hs
    rw [JsValue.eq_str_of_sortKeys h.symm]
  · have hother : ∀ u : JsValue, (¬∃ s, u = .str s) → templateText H u = H.textOf u := by
      intro u hu
      cases u with
      | str s => exact absurd ⟨s, rfl⟩ hu
      | _ => rfl
    have hs' : ¬∃ s, w = .str s := by
      rintro ⟨s, rfl⟩
      exact hs ⟨s, JsValue.eq_str_of_sortKeys h⟩
    rw [hother v hs, hother w hs', htext v w hv hw h]

/-- A member of a plain object is plain. -/
theorem plain_member {d : JsValue.Members} (h : (JsValue.object d).plain = true) (name : String) :
    (JsValue.member d name).plain = true :=
  JsValue.plain_read (v := .object d) h rfl

/-- A name no object inherits is looked up among the members alone. -/
theorem lookupFact_of_own {name : String} (hproto : name ≠ "__proto__")
    (hmethod : objectMethods.contains name = false) (d : JsValue.Members) :
    lookupFact d name = JsValue.member d name := by
  rw [lookupFact, if_neg hproto, hmethod, if_neg Bool.false_ne_true, JsValue.member]

/-- Decisions that are equal up to member order have one line. -/
theorem decisionEntry_congr (laws : CanonicalLaws H.canonicalCbor)
    (htext : ∀ v w, v.plain = true → w.plain = true → v.sortKeys = w.sortKeys →
      H.textOf v = H.textOf w) {d d' : JsValue.Members} (hd : (JsValue.object d).plain = true)
    (hd' : (JsValue.object d').plain = true)
    (h : (JsValue.object d).sortKeys = (JsValue.object d').sortKeys) :
    decisionEntry H d = decisionEntry H d' := by
  have hlookup : ∀ name, name ≠ "__proto__" → objectMethods.contains name = false →
      templateText H (lookupFact d name) = templateText H (lookupFact d' name) := by
    intro name hproto hmethod
    rw [lookupFact_of_own hproto hmethod, lookupFact_of_own hproto hmethod]
    exact templateText_congr htext (plain_member hd name) (plain_member hd' name)
      (JsValue.member_congr hd hd' h name)
  rw [decisionEntry, decisionEntry, hlookup "policy_id" (by decide) (by decide),
    hlookup "policy_version" (by decide) (by decide),
    hlookup "evaluated_at" (by decide) (by decide), laws.orderFree _ _ hd hd' h]

/-! ## The order of a manifest -/

/-- Texts with the same code units are the same. -/
theorem utf16_injective : Function.Injective utf16 := by
  intro s t h
  have hunits : codeUnits s = codeUnits t := congrArg (List.map UInt16.ofNat) h
  rw [codeUnits_eq, codeUnits_eq, markedCode_charUnits.injective] at hunits
  exact String.toList_inj.mp hunits

/-- A manifest is sorted stably by the code units of its digests. -/
theorem stablySorted_manifest (hsort : KeyedSort H) (l : List BundleManifestEntry) :
    StablySorted (fun e => utf16 e.digest) l (H.sort compareDigests l) := by
  refine hsort.stably compareDigests _ l fun a _ b _ => ?_
  rw [compareDigests]
  rcases lt_trichotomy (utf16 a.digest) (utf16 b.digest) with h | h | h
  · rw [if_pos h, JsNumber.lt_ofInt, JsNumber.lt_ofInt]
    exact ⟨iff_of_true (by decide) h, iff_of_false (by decide) h.not_gt⟩
  · rw [if_neg h.not_lt, if_neg h.not_gt, JsNumber.lt_ofInt]
    exact ⟨iff_of_false (by decide) h.not_lt, iff_of_false (by decide) h.not_gt⟩
  · rw [if_neg h.not_gt, if_pos h, JsNumber.lt_ofInt, JsNumber.lt_ofInt]
    exact ⟨iff_of_false (by decide) h.not_gt, iff_of_true (by decide) h⟩

/-- Two listings come to one manifest exactly if their entries of each digest are the same in the
same order. -/
theorem sort_eq_iff (hsort : KeyedSort H) (l m : List BundleManifestEntry) :
    H.sort compareDigests l = H.sort compareDigests m ↔
      ∀ k, fibre BundleManifestEntry.digest l k = fibre BundleManifestEntry.digest m k :=
  (stablySorted_manifest hsort l).eq_iff_comp utf16_injective (stablySorted_manifest hsort m)

theorem ManifestKind.text_injective : Function.Injective ManifestKind.text := by
  intro a b h
  revert h
  cases a <;> cases b <;> decide

/-- An entry is told by its JSON form. -/
theorem toJs_entry_injective {a b : BundleManifestEntry}
    (h : (toJs a).sortKeys = (toJs b).sortKeys) : a = b := by
  have hplain : ∀ e : BundleManifestEntry, (toJs e).plain = true := by
    intro e
    simp [toJs, JsValue.plain, JsValue.plainMembers]
  have hmember := JsValue.member_congr (hplain a) (hplain b) h
  have hkind := JsValue.eq_str_of_sortKeys (hmember "kind")
  have hid := JsValue.eq_str_of_sortKeys (hmember "id")
  have hdigest := JsValue.eq_str_of_sortKeys (hmember "digest")
  obtain ⟨kind, id, digest⟩ := a
  obtain ⟨kind', id', digest'⟩ := b
  cases hid
  cases hdigest
  have hkinds : kind = kind' := ManifestKind.text_injective (JsValue.str.inj hkind)
  rw [hkinds]

/-! ## The listing -/

/-- The entries of a bundle, in the order they are listed. -/
def EvidenceBundle.listing (b : EvidenceBundle) (decided : List BundleManifestEntry) :
    List BundleManifestEntry :=
  b.attached.map (fun a => ⟨.attachment, a.kind, a.digest⟩) ++
    b.envelopes.map (fun e => ⟨.envelope, e.core.eventId, e.digest⟩) ++ decided

/-- Entries of one kind and one digest are told by their ids. -/
theorem map_entry_eq_iff {α : Type} (kind : ManifestKind) (id : α → String)
    (digest : α → Multihash) (l m : List α) (k : Multihash) :
    (fibre digest l k).map (fun a => (⟨kind, id a, digest a⟩ : BundleManifestEntry)) =
        (fibre digest m k).map (fun a => ⟨kind, id a, digest a⟩) ↔
      (fibre digest l k).map id = (fibre digest m k).map id := by
  have hids : ∀ l : List α,
      (fibre digest l k).map (fun a => (⟨kind, id a, digest a⟩ : BundleManifestEntry)) =
        ((fibre digest l k).map id).map fun i => ⟨kind, i, k⟩ := by
    intro l
    rw [List.map_map]
    refine List.map_congr_left fun a ha => ?_
    rw [Function.comp_apply, ((mem_fibre digest).mp ha).2]
  have hinj : Function.Injective fun i : String => (⟨kind, i, k⟩ : BundleManifestEntry) :=
    fun _ _ h => congrArg BundleManifestEntry.id h
  rw [hids, hids, (List.map_injective_iff.mpr hinj).eq_iff]

/-- A list of entries by kind is told apart into its kinds. -/
theorem append_eq_iff_of_kinds {as es ds as' es' ds' : List BundleManifestEntry}
    (has : ∀ x ∈ as ++ as', x.kind = .attachment) (hes : ∀ x ∈ es ++ es', x.kind = .envelope)
    (hds : ∀ x ∈ ds ++ ds', x.kind = .decision) :
    as ++ es ++ ds = as' ++ es' ++ ds' ↔ as = as' ∧ es = es' ∧ ds = ds' := by
  constructor
  · intro h
    have hkinds := fun kind => congrArg (fun l => fibre BundleManifestEntry.kind l kind) h
    have hself : ∀ {l l' : List BundleManifestEntry} {kind : ManifestKind},
        (∀ x ∈ l ++ l', x.kind = kind) → fibre BundleManifestEntry.kind l kind = l ∧
          fibre BundleManifestEntry.kind l' kind = l' := by
      intro l l' kind hl
      exact ⟨fibre_eq_self fun x hx => hl x (List.mem_append_left _ hx),
        fibre_eq_self fun x hx => hl x (List.mem_append_right _ hx)⟩
    have hnil : ∀ {l l' : List BundleManifestEntry} {kind other : ManifestKind},
        (∀ x ∈ l ++ l', x.kind = kind) → kind ≠ other →
          fibre BundleManifestEntry.kind l other = [] ∧
            fibre BundleManifestEntry.kind l' other = [] := by
      intro l l' kind other hl hne
      refine ⟨fibre_eq_nil fun x hx heq => hne ?_, fibre_eq_nil fun x hx heq => hne ?_⟩
      · exact (hl x (List.mem_append_left _ hx)).symm.trans heq
      · exact (hl x (List.mem_append_right _ hx)).symm.trans heq
    have hattachment := hkinds .attachment
    have henvelope := hkinds .envelope
    have hdecision := hkinds .decision
    simp only [fibre_append, hself has, hnil hes (by decide : ManifestKind.envelope ≠ .attachment),
      hnil hds (by decide : ManifestKind.decision ≠ .attachment), List.append_nil] at hattachment
    simp only [fibre_append, hself hes, hnil has (by decide : ManifestKind.attachment ≠ .envelope),
      hnil hds (by decide : ManifestKind.decision ≠ .envelope), List.append_nil,
      List.nil_append] at henvelope
    simp only [fibre_append, hself hds, hnil has (by decide : ManifestKind.attachment ≠ .decision),
      hnil hes (by decide : ManifestKind.envelope ≠ .decision), List.nil_append] at hdecision
    exact ⟨hattachment, henvelope, hdecision⟩
  · rintro ⟨rfl, rfl, rfl⟩
    rfl

/-- Listings have the same entries of each digest in the same order exactly if ties are listed
alike and the decisions are. -/
theorem listing_fibres_iff {b c : EvidenceBundle} {decided decided' : List BundleManifestEntry}
    (h : ∀ x ∈ decided ++ decided', x.kind = .decision) :
    (∀ k, fibre BundleManifestEntry.digest (b.listing decided) k =
        fibre BundleManifestEntry.digest (c.listing decided') k) ↔
      b.SameTies c ∧ ∀ k, fibre BundleManifestEntry.digest decided k =
        fibre BundleManifestEntry.digest decided' k := by
  have hsplit : ∀ k, fibre BundleManifestEntry.digest (b.listing decided) k =
      fibre BundleManifestEntry.digest (c.listing decided') k ↔
        ((fibre BundleAttachment.digest b.attached k).map BundleAttachment.kind =
          (fibre BundleAttachment.digest c.attached k).map BundleAttachment.kind) ∧
        ((fibre SignedEnvelope.digest b.envelopes k).map (fun e => e.core.eventId) =
          (fibre SignedEnvelope.digest c.envelopes k).map (fun e => e.core.eventId)) ∧
        fibre BundleManifestEntry.digest decided k =
          fibre BundleManifestEntry.digest decided' k := by
    intro k
    rw [EvidenceBundle.listing, EvidenceBundle.listing, fibre_append, fibre_append, fibre_append,
      fibre_append, fibre_map, fibre_map, fibre_map, fibre_map, append_eq_iff_of_kinds,
      map_entry_eq_iff, map_entry_eq_iff]
    · intro x hx
      rcases List.mem_append.mp hx with hx | hx
      · obtain ⟨a, _, rfl⟩ := List.mem_map.mp hx
        rfl
      · obtain ⟨a, _, rfl⟩ := List.mem_map.mp hx
        rfl
    · intro x hx
      rcases List.mem_append.mp hx with hx | hx
      · obtain ⟨e, _, rfl⟩ := List.mem_map.mp hx
        rfl
      · obtain ⟨e, _, rfl⟩ := List.mem_map.mp hx
        rfl
    · intro x hx
      rcases List.mem_append.mp hx with hx | hx
      · exact h x (List.mem_append_left _ ((mem_fibre _).mp hx).1)
      · exact h x (List.mem_append_right _ ((mem_fibre _).mp hx).1)
  constructor
  · intro hall
    exact ⟨⟨fun k => ((hsplit k).mp (hall k)).1, fun k => ((hsplit k).mp (hall k)).2.1⟩,
      fun k => ((hsplit k).mp (hall k)).2.2⟩
  · rintro ⟨hties, hdecided⟩ k
    exact (hsplit k).mpr ⟨hties.kinds k, hties.eventIds k, hdecided k⟩

/-- A manifest reads nothing of an envelope but its event id and its digest. -/
theorem manifestOf_congr {es es' : List SignedEnvelope} {ds : List JsValue.Members}
    {as : List BundleAttachment} (h : es.map (fun e => (e.core.eventId, e.digest)) =
      es'.map (fun e => (e.core.eventId, e.digest))) :
    manifestOf H es ds as = manifestOf H es' ds as := by
  have hentries : es.map (fun e => (⟨.envelope, e.core.eventId, e.digest⟩ : BundleManifestEntry)) =
      es'.map (fun e => ⟨.envelope, e.core.eventId, e.digest⟩) := by
    have hmapped := congrArg
      (List.map fun p : String × Multihash => (⟨.envelope, p.1, p.2⟩ : BundleManifestEntry)) h
    rwa [List.map_map, List.map_map] at hmapped
  rw [manifestOf, manifestOf, hentries]

/-! ## What a report says of a bundle -/

/-- What the verifier recomputed of a bundle whose checks pass. -/
structure Recomputed (H : Host) (b : EvidenceBundle) (lines : List BundleManifestEntry)
    (bytes : Bytes) : Prop where
  decided : b.decisions.mapM (decisionEntry H) = .ok lines
  encoded : H.canonicalCbor (.array ((H.sort compareDigests (b.listing lines)).map toJs)) =
    .ok bytes
  digest : b.manifest.digest = mhSha256 H (utf8 "cool.bundle.manifest.v1\x00" ++ bytes)
  hashed : b.Hashed H (utf8 "cool.bundle.manifest.v1\x00" ++ bytes)
  bound : ∀ a ∈ b.attached, attachmentBound H a = true

theorem exists_recomputed {b : EvidenceBundle} (h : b.Attested H) :
    ∃ decided bytes, Recomputed H b decided bytes := by
  obtain ⟨o, report, hreport, ⟨cm, hcm, hpass⟩, ca, hca, hbound⟩ := h
  obtain ⟨s, hran, hchecks⟩ := sections_of_verifyBundle hreport
  rw [hchecks] at hcm hca
  obtain rfl : manifestCheck s.recomputed b.manifest = cm := Option.some.inj hcm
  obtain rfl : attachmentsCheck H b = ca := Option.some.inj hca
  have hmatch : s.recomputed.digest = b.manifest.digest := by
    by_contra hne
    rw [manifestCheck, if_neg hne] at hpass
    cases hpass
  have hmanifest := hran.recomputed
  obtain ⟨decided, hdecided, hmanifest⟩ := bind_eq_ok.mp hmanifest
  obtain ⟨digest, hdigest, hmanifest⟩ := bind_eq_ok.mp hmanifest
  obtain ⟨bytes, hbytes, hdigest⟩ := bind_eq_ok.mp hdigest
  have hentries := congrArg BundleManifest.entries (Except.ok.inj hmanifest)
  refine ⟨decided, bytes, hdecided, hbytes, ?_, ?_, ?_⟩
  · rw [← hmatch, ← Except.ok.inj hmanifest, ← Except.ok.inj hdigest]
  · refine .manifest hran.recomputed ?_
    rw [← hentries]
    exact hbytes
  · intro a ha
    by_contra hne
    have hbad : b.attached.filter (fun a => !attachmentBound H a) ≠ [] := by
      refine List.ne_nil_of_mem (List.mem_filter.mpr ⟨ha, ?_⟩)
      rw [Bool.eq_false_of_not_eq_true hne]
      rfl
    rw [attachmentsCheck, if_pos hbad] at hbound
    rcases hbound with hbound | hbound <;> cases hbound

/-- The manifest digests of two bundles are equal exactly if their listings come to one
manifest. -/
theorem digest_eq_iff_sorted (laws : CanonicalLaws H.canonicalCbor) {b c : EvidenceBundle}
    (hfree : b.CollisionFree H c) {decided decided' : List BundleManifestEntry}
    {bytes bytes' : Bytes} (hb : Recomputed H b decided bytes)
    (hc : Recomputed H c decided' bytes') :
    b.manifest.digest = c.manifest.digest ↔
      H.sort compareDigests (b.listing decided) = H.sort compareDigests (c.listing decided') := by
  have hplain : ∀ l : List BundleManifestEntry, (JsValue.array (l.map toJs)).plain = true :=
    fun l => JsValue.plainItems_map fun e _ => by simp [toJs, JsValue.plain, JsValue.plainMembers]
  rw [hb.digest, hc.digest, mhSha256_eq_iff]
  constructor
  · intro h
    have hmessage := hfree _ _ (.inl hb.hashed) (.inr hc.hashed) h
    have hbytes := List.append_cancel_left hmessage
    have hsorted := laws.injective _ _ _ (hplain _) (hplain _) hb.encoded (hbytes ▸ hc.encoded)
    simp only [JsValue.sortKeys, JsValue.array.injEq, JsValue.sortKeysItems_eq_map,
      List.map_map] at hsorted
    exact List.map_injective_iff.mpr (fun _ _ he => toJs_entry_injective he) hsorted
  · intro h
    have hsame : (Except.ok bytes : Except String Bytes) = .ok bytes' := by
      rw [← hb.encoded, h, hc.encoded]
    rw [Except.ok.inj hsame]

/-! ## Decisions and attachments -/

/-- The lines of decisions that went through. -/
theorem lines_eq_map {ds : List JsValue.Members} {lines : List BundleManifestEntry}
    (h : ds.mapM (decisionEntry H) = .ok lines) :
    lines = ds.map (lineOf H) ∧ ∀ d ∈ ds, decisionEntry H d = .ok (lineOf H d) := by
  constructor
  · have hall := forall₂_of_mapM h
    clear h
    induction hall with
    | nil => rfl
    | cons hline _ ih => rw [List.map_cons, lineOf_eq hline, ih]
  · intro d hd
    obtain ⟨line, _, hline⟩ := exists_mem_of_mapM h hd
    rw [hline, lineOf_eq hline]

theorem kind_of_lines {ds : List JsValue.Members} {lines : List BundleManifestEntry}
    (h : ds.mapM (decisionEntry H) = .ok lines) {x : BundleManifestEntry} (hx : x ∈ lines) :
    x.kind = .decision := by
  obtain ⟨d, _, hline⟩ := exists_of_mem_mapM h hx
  exact (digest_of_decisionEntry hline).1

/-- Listings name the same decisions under each digest exactly if the bundles carry the same. -/
theorem decided_fibres_iff (laws : CanonicalLaws H.canonicalCbor)
    (htext : ∀ v w, v.plain = true → w.plain = true → v.sortKeys = w.sortKeys →
      H.textOf v = H.textOf w) {b c : EvidenceBundle} (hfree : b.CollisionFree H c)
    (hplain : ∀ d ∈ b.decisions ++ c.decisions, (JsValue.object d).plain = true)
    {lines lines' : List BundleManifestEntry} (hb : b.decisions.mapM (decisionEntry H) = .ok lines)
    (hc : c.decisions.mapM (decisionEntry H) = .ok lines') :
    (∀ k, fibre BundleManifestEntry.digest lines k = fibre BundleManifestEntry.digest lines' k) ↔
      b.SameDecisions c := by
  obtain ⟨rfl, hlines⟩ := lines_eq_map hb
  obtain ⟨rfl, hlines'⟩ := lines_eq_map hc
  have hentry : ∀ d ∈ b.decisions ++ c.decisions, decisionEntry H d = .ok (lineOf H d) := by
    intro d hd
    exact (List.mem_append.mp hd).elim (hlines d) (hlines' d)
  have hdigest : ∀ d ∈ b.decisions ++ c.decisions, ∀ d' ∈ b.decisions ++ c.decisions,
      (lineOf H d).digest = (lineOf H d').digest →
        (JsValue.object d).sortKeys = (JsValue.object d').sortKeys := by
    intro d hd d' hd' h
    obtain ⟨_, x, hx, hxdigest⟩ := digest_of_decisionEntry (hentry d hd)
    obtain ⟨_, y, hy, hydigest⟩ := digest_of_decisionEntry (hentry d' hd')
    have hhashed : ∀ {d : JsValue.Members} {z : Bytes}, d ∈ b.decisions ++ c.decisions →
        H.canonicalCbor (.object d) = .ok z → b.Hashed H z ∨ c.Hashed H z := fun hd hz =>
      (List.mem_append.mp hd).imp (fun hd => .decision hd hz) (fun hd => .decision hd hz)
    rw [hxdigest, hydigest, mhSha256_eq_iff] at h
    obtain rfl := hfree x y (hhashed hd hx) (hhashed hd' hy) h
    exact laws.injective _ _ _ (hplain d hd) (hplain d' hd') hx hy
  have hline : ∀ d ∈ b.decisions ++ c.decisions, ∀ d' ∈ b.decisions ++ c.decisions,
      (JsValue.object d).sortKeys = (JsValue.object d').sortKeys → lineOf H d = lineOf H d' := by
    intro d hd d' hd' h
    rw [lineOf, lineOf, decisionEntry_congr laws htext (hplain d hd) (hplain d' hd') h]
  constructor
  · intro h
    refine perm_map_of_perm_map (perm_of_fibres h) fun d hd d' hd' heq => ?_
    exact hdigest d (List.mem_append_left _ hd) d' (List.mem_append_right _ hd')
      (congrArg BundleManifestEntry.digest heq)
  · intro h
    have hperm : (b.decisions.map (lineOf H)).Perm (c.decisions.map (lineOf H)) :=
      perm_map_of_perm_map h fun d hd d' hd' heq =>
        hline d (List.mem_append_left _ hd) d' (List.mem_append_right _ hd') heq
    refine fibre_eq_of_perm hperm fun x hx y hy heq => ?_
    obtain ⟨d, hd, rfl⟩ := List.mem_map.mp hx
    obtain ⟨d', hd', rfl⟩ := List.mem_map.mp hy
    have hd := List.mem_append_left c.decisions hd
    have hd' := List.mem_append_left c.decisions hd'
    exact hline d hd d' hd' (hdigest d hd d' hd' heq)

/-- What lists its ids alike under each digest lists the same ids and digests. -/
theorem perm_of_ties {α : Type} (kind : ManifestKind) {id : α → String} {digest : α → Multihash}
    {l m : List α} (h : ∀ k, (fibre digest l k).map id = (fibre digest m k).map id) :
    (l.map fun a => (⟨kind, id a, digest a⟩ : BundleManifestEntry)).Perm
      (m.map fun a => ⟨kind, id a, digest a⟩) := by
  have hfibres : ∀ k, fibre BundleManifestEntry.digest
      (l.map fun a => (⟨kind, id a, digest a⟩ : BundleManifestEntry)) k =
        fibre BundleManifestEntry.digest (m.map fun a => ⟨kind, id a, digest a⟩) k := by
    intro k
    rw [fibre_map, fibre_map]
    exact (map_entry_eq_iff kind id digest l m k).mpr (h k)
  exact perm_of_fibres hfibres

/-- The digest of an attachment that is bound is that of its body's JSON form. -/
theorem exists_of_attachmentBound {a : BundleAttachment} (h : attachmentBound H a = true) :
    ∃ clone bytes, H.jsonClone a.body = .ok clone ∧ H.canonicalCbor clone = .ok bytes ∧
      a.digest = mhSha256 H bytes := by
  cases hbody : bodyDigest H a.body with
  | error e =>
    rw [attachmentBound, hbody] at h
    cases h
  | ok digest =>
    rw [attachmentBound, hbody] at h
    obtain ⟨clone, hclone, hbody⟩ := bind_eq_ok.mp hbody
    obtain ⟨bytes, hbytes, hbody⟩ := bind_eq_ok.mp hbody
    exact ⟨clone, bytes, hclone, hbytes,
      (of_decide_eq_true h).symm.trans (Except.ok.inj hbody).symm⟩

/-- Bundles that list the kinds alike under each digest carry the same attachments. -/
theorem sameAttachments_of_ties (laws : CanonicalLaws H.canonicalCbor)
    (hclone : ∀ v w, H.jsonClone v = .ok w → w.plain = true) {b c : EvidenceBundle}
    (hfree : b.CollisionFree H c) (hb : ∀ a ∈ b.attached, attachmentBound H a = true)
    (hc : ∀ a ∈ c.attached, attachmentBound H a = true) (h : b.SameTies c) :
    b.SameAttachments H c := by
  refine perm_map_of_perm_map (perm_of_ties .attachment h.kinds) fun a ha a' ha' heq => ?_
  obtain ⟨v, x, hv, hx, hxdigest⟩ := exists_of_attachmentBound (hb a ha)
  obtain ⟨w, y, hw, hy, hydigest⟩ := exists_of_attachmentBound (hc a' ha')
  have hdigest : a.digest = a'.digest := congrArg BundleManifestEntry.digest heq
  rw [hxdigest, hydigest, mhSha256_eq_iff] at hdigest
  obtain rfl := hfree x y (.inl (.attachment ha hv hx)) (.inr (.attachment ha' hw hy)) hdigest
  have hbody := laws.injective v w x (hclone _ _ hv) (hclone _ _ hw) hx hy
  have hkind : a.kind = a'.kind := congrArg BundleManifestEntry.id heq
  rw [hv, hw, hkind]
  exact congrArg (fun u => (a'.kind, Except.ok u)) hbody

/-- Bundles that list the event ids alike under each digest cite the same envelopes. -/
theorem sameCited_of_ties {b c : EvidenceBundle} (h : b.SameTies c) : b.SameCited c := by
  refine perm_map_of_perm_map (perm_of_ties .envelope h.eventIds) fun e _ e' _ heq => ?_
  exact Prod.ext (congrArg BundleManifestEntry.id heq) (congrArg BundleManifestEntry.digest heq)

/-- Bundles with the same envelopes cite the same. -/
theorem sameCited_of_sameEnvelopes {b c : EvidenceBundle} (h : b.SameEnvelopes c) :
    b.SameCited c := by
  refine perm_map_of_perm_map h fun e _ e' _ heq => ?_
  have hid : e.ordered.core.eventId = e'.ordered.core.eventId :=
    congrArg (fun e : SignedEnvelope => e.core.eventId) heq
  have hdigest : e.ordered.digest = e'.ordered.digest := congrArg SignedEnvelope.digest heq
  exact Prod.ext hid hdigest

/-! ## What the digest commits to -/

/-- The manifest digests of two reported bundles are equal exactly if they carry the same
decisions and list what shares a digest alike. -/
theorem digest_eq_iff_ties (laws : CanonicalLaws H.canonicalCbor) (hsort : KeyedSort H)
    (htext : ∀ v w, v.plain = true → w.plain = true → v.sortKeys = w.sortKeys →
      H.textOf v = H.textOf w) {b c : EvidenceBundle} (hfree : b.CollisionFree H c)
    (hplain : ∀ d ∈ b.decisions ++ c.decisions, (JsValue.object d).plain = true)
    {lines lines' : List BundleManifestEntry} {bytes bytes' : Bytes}
    (hb : Recomputed H b lines bytes) (hc : Recomputed H c lines' bytes') :
    b.manifest.digest = c.manifest.digest ↔ b.SameTies c ∧ b.SameDecisions c := by
  have hkinds : ∀ x ∈ lines ++ lines', x.kind = .decision := fun x hx =>
    (List.mem_append.mp hx).elim (kind_of_lines hb.decided) (kind_of_lines hc.decided)
  rw [digest_eq_iff_sorted laws hfree hb hc, sort_eq_iff hsort, listing_fibres_iff hkinds,
    decided_fibres_iff laws htext hfree hplain hb.decided hc.decided]

/-- Two reported bundles have equal manifest digests exactly if they carry the same, unless they
list the same: then exactly if the envelopes are the same in every other member where whatever
shares a digest is listed in the same order, and differ where it is not. -/
theorem digest_commits_iff (laws : CanonicalLaws H.canonicalCbor) (hsort : KeyedSort H)
    (hclone : ∀ v w, H.jsonClone v = .ok w → w.plain = true)
    (htext : ∀ v w, v.plain = true → w.plain = true → v.sortKeys = w.sortKeys →
      H.textOf v = H.textOf w) {b c : EvidenceBundle} (hfree : b.CollisionFree H c)
    (hplain : ∀ d ∈ b.decisions ++ c.decisions, (JsValue.object d).plain = true)
    (hb : b.Attested H) (hc : c.Attested H) :
    (b.manifest.digest = c.manifest.digest ↔ b.SameContents H c) ↔
      (b.SameListed H c → (b.SameEnvelopes c ↔ b.SameTies c)) := by
  obtain ⟨lines, bytes, hb⟩ := exists_recomputed hb
  obtain ⟨lines', bytes', hc⟩ := exists_recomputed hc
  rw [digest_eq_iff_ties laws hsort htext hfree hplain hb hc]
  constructor
  · intro h hlisted
    constructor
    · intro henvelopes
      exact (h.mpr ⟨henvelopes, hlisted.decisions, hlisted.attachments⟩).1
    · intro hties
      exact (h.mp ⟨hties, hlisted.decisions⟩).envelopes
  · intro h
    constructor
    · rintro ⟨hties, hdecisions⟩
      have hattachments := sameAttachments_of_ties laws hclone hfree hb.bound hc.bound hties
      have hlisted : b.SameListed H c := ⟨sameCited_of_ties hties, hdecisions, hattachments⟩
      exact ⟨(h hlisted).mpr hties, hdecisions, hattachments⟩
    · intro hsame
      have hlisted : b.SameListed H c :=
        ⟨sameCited_of_sameEnvelopes hsame.envelopes, hsame.decisions, hsame.attachments⟩
      exact ⟨(h hlisted).mp hsame.envelopes, hsame.decisions⟩

end

/-! ## Bundles of the reference host -/

namespace Reference

/-- The manifest of what a bundle without decisions carries; empty where there is none. -/
def manifestWith (envelopes : List SignedEnvelope) (attachments : List BundleAttachment) :
    BundleManifest :=
  match manifestOf host envelopes [] attachments with
  | .ok manifest => manifest
  | .error _ => { entries := [], digest := "" }

/-- The exporter's bundle of envelopes and attachments. -/
def bundleWith (envelopes : List SignedEnvelope) (attachments : List BundleAttachment) :
    EvidenceBundle :=
  { bundleOf [] with
    envelopes
    attachments := some attachments
    manifest := manifestWith envelopes attachments
    signature := match signManifest host (manifestWith envelopes attachments) exporterKey with
      | .ok signature => signature
      | .error _ => { alg := "", mlDsa := "", ed25519 := "", keyId := "" } }

/-- What is hashed for such a manifest. -/
def manifestMessage (envelopes : List SignedEnvelope) (attachments : List BundleAttachment) :
    Bytes :=
  utf8 "cool.bundle.manifest.v1\x00" ++
    (host.canonicalCbor (.array ((manifestWith envelopes attachments).entries.map
      toJs))).toOption.getD []

variable {envelopes : List SignedEnvelope} {attachments : List BundleAttachment}

theorem manifestOf_manifestWith
    (h : (manifestOf host envelopes [] attachments).isOk = true) :
    manifestOf host envelopes [] attachments = .ok (manifestWith envelopes attachments) := by
  obtain ⟨m, hm⟩ := exists_of_isOk h
  rw [manifestWith, hm]

/-- The verifier reports that such a bundle matches its manifest. -/
theorem attested_bundleWith (h : (manifestOf host envelopes [] attachments).isOk = true)
    (henvelopes : ∀ e ∈ envelopes, e.checkpoint = none ∧ e.attestation = none)
    (hsequence : (sequenceCheck host envelopes).isSome = true)
    (hbound : ∀ a ∈ attachments, attachmentBound host a = true) :
    (bundleWith envelopes attachments).Attested host := by
  have hmanifest := manifestOf_manifestWith h
  have hdate : toISOString (clock 1000) = .ok "2026-01-01T00:00:01.000Z" := by decide
  have hdigest : ∃ message,
      multihashDigest (manifestWith envelopes attachments).digest = .ok message := by
    obtain ⟨_, _, hm⟩ := bind_eq_ok.mp hmanifest
    obtain ⟨digest, hdigest, hm⟩ := bind_eq_ok.mp hm
    obtain ⟨bytes, _, hdigest⟩ := bind_eq_ok.mp hdigest
    cases hdigest
    rw [← Except.ok.inj hm]
    exact ⟨_, multihashDigest_toHex (length_digest _)⟩
  obtain ⟨report, hreport⟩ := exists_bundleReport (H := host)
    (b := bundleWith envelopes attachments) (o := bundleOptions []) length_digest ⟨_, hmanifest⟩
    rfl hdigest rfl ⟨_, hdate⟩ henvelopes rfl
    hsequence
  obtain ⟨s, hran, hchecks⟩ := sections_of_verifyBundle hreport
  have hsame : s.recomputed = manifestWith envelopes attachments :=
    Except.ok.inj (hran.recomputed.symm.trans hmanifest)
  refine ⟨bundleOptions [], report, hreport, ⟨manifestCheck s.recomputed
    (manifestWith envelopes attachments), by rw [hchecks]; rfl, ?_⟩,
    attachmentsCheck host (bundleWith envelopes attachments), by rw [hchecks]; rfl, ?_⟩
  · rw [hsame, manifestCheck, if_pos rfl]
    rfl
  · have hgood : (bundleWith envelopes attachments).attached.filter
        (fun a => !attachmentBound host a) = [] := by
      refine List.filter_eq_nil_iff.mpr fun a ha => ?_
      rw [hbound a ha]
      exact Bool.false_ne_true
    rw [attachmentsCheck, hgood, if_neg (not_not_intro rfl)]
    by_cases hattached : (bundleWith envelopes attachments).attached = []
    · exact .inr (if_neg (not_not_intro hattached))
    · exact .inl (if_pos hattached)

/-- What is hashed for such a bundle is its manifest and its attachments. -/
theorem mem_of_hashed {x : Bytes} (h : (bundleWith envelopes attachments).Hashed host x) :
    x = manifestMessage envelopes attachments ∨
      ∃ a ∈ attachments, ((host.jsonClone a.body) >>= host.canonicalCbor) = .ok x := by
  cases h with
  | @manifest m bytes hm hbytes =>
    left
    have hsame : manifestWith envelopes attachments = m := by
      have hm' : manifestOf host envelopes [] attachments = .ok m := hm
      rw [manifestWith, hm']
    rw [manifestMessage, hsame, hbytes]
    rfl
  | decision hd => cases hd
  | attachment ha hclone hbytes =>
    right
    refine ⟨_, ha, ?_⟩
    rw [hclone, ok_bind, hbytes]

/-- Bundles are collision free where what is hashed for them has distinct digests. -/
theorem collisionFree_of_nodup {b c : EvidenceBundle} {messages : List Bytes}
    (hnodup : (messages.map host.sha256).Nodup) (hb : ∀ x, b.Hashed host x → x ∈ messages)
    (hc : ∀ x, c.Hashed host x → x ∈ messages) : b.CollisionFree host c := by
  intro x y hx hy heq
  exact List.inj_on_of_nodup_map hnodup (hx.elim (hb x) (hc x)) (hy.elim (hb y) (hc y)) heq

theorem plain_of_jsonClone (v w : JsValue) (h : host.jsonClone v = .ok w) : w.plain = true := by
  have hclone : (if v.plain && !v.isUndefined then .ok v else .error "not JSON" :
      Except String JsValue) = .ok w := h
  split_ifs at hclone with hplain
  cases hclone
  exact (Bool.and_eq_true_iff.mp hplain).1

theorem textOf_sortKeys (v : JsValue) : textOf v.sortKeys = textOf v := by
  cases v <;> rfl

theorem textOf_congr (v w : JsValue) (_ : v.plain = true) (_ : w.plain = true)
    (h : v.sortKeys = w.sortKeys) : host.textOf v = host.textOf w := by
  have hv : host.textOf v = textOf v.sortKeys := (textOf_sortKeys v).symm
  rw [hv, h]
  exact textOf_sortKeys w

/-- An attachment of a kind, bound to its body. -/
def attachment (kind : String) (body : JsValue) : BundleAttachment :=
  { kind
    digest := match bodyDigest host body with
      | .ok digest => digest
      | .error _ => ""
    body }

/-- Two attachments, the second with a body of one's choice. -/
def attachedPair (body : JsValue) : List BundleAttachment :=
  [attachment "note" (.bool true), attachment "policy" body]

/-- The verifier reports that a pair matches its manifest, in either order. -/
theorem attested_pair {body : JsValue} {attachments : List BundleAttachment}
    (hpair : ∀ a ∈ attachments, a ∈ attachedPair body)
    (hbody : attachmentBound host (attachment "policy" body) = true)
    (h : (manifestOf host [] [] attachments).isOk = true) :
    (bundleWith [] attachments).Attested host := by
  have hnote : attachmentBound host (attachment "note" (.bool true)) = true := by decide
  refine attested_bundleWith h (List.forall_mem_nil _) rfl fun a ha => ?_
  rcases List.mem_pair.mp (hpair a ha) with rfl | rfl
  · exact hnote
  · exact hbody

/-- What is hashed for a pair is its manifest and its two bodies. -/
theorem hashed_pair {body : JsValue} {bytes : Bytes} {attachments : List BundleAttachment}
    (hpair : ∀ a ∈ attachments, a ∈ attachedPair body)
    (hbytes : (host.jsonClone body >>= host.canonicalCbor) = .ok bytes) {x : Bytes}
    (hx : (bundleWith [] attachments).Hashed host x) :
    x = manifestMessage [] attachments ∨ x = [0xf5] ∨ x = bytes := by
  have hnote : (host.jsonClone (.bool true) >>= host.canonicalCbor) = .ok [0xf5] := by
    decide
  rcases mem_of_hashed hx with hx | ⟨a, ha, hx⟩
  · exact .inl hx
  · right
    rcases List.mem_pair.mp (hpair a ha) with rfl | rfl
    · exact .inl (Except.ok.inj (hx.symm.trans hnote))
    · exact .inr (Except.ok.inj (hx.symm.trans hbytes))

/-- An envelope without its signatures. -/
def unsigned (e : SignedEnvelope) : SignedEnvelope := { e with signatures := [] }

theorem manifestOf_unsigned (e : SignedEnvelope) :
    manifestOf host [unsigned e] [] [] = manifestOf host [e] [] [] := manifestOf_congr rfl

theorem manifestWith_unsigned (e : SignedEnvelope) :
    manifestWith [unsigned e] [] = manifestWith [e] [] := by
  rw [manifestWith, manifestWith, manifestOf_unsigned]

/-- What is hashed for a bundle of one envelope is its manifest. -/
theorem hashed_single {e : SignedEnvelope} {x : Bytes} (h : (bundleWith [e] []).Hashed host x) :
    x = manifestMessage [e] [] := by
  rcases mem_of_hashed h with h | ⟨a, ha, _⟩
  · exact h
  · cases ha

/-- The verifier reports that a bundle of one envelope matches its manifest whether the envelope
is signed or not. -/
theorem attested_single {e : SignedEnvelope}
    (hmanifest : (manifestOf host [e] [] []).isOk = true)
    (hbare : e.checkpoint = none ∧ e.attestation = none)
    (hsequence : (sequenceCheck host [e]).isSome = true) :
    (bundleWith [e] []).Attested host ∧ (bundleWith [unsigned e] []).Attested host := by
  constructor
  · exact attested_bundleWith hmanifest (List.forall_mem_singleton.mpr hbare) hsequence
      (List.forall_mem_nil _)
  · refine attested_bundleWith ?_ (List.forall_mem_singleton.mpr hbare) hsequence
      (List.forall_mem_nil _)
    rw [manifestOf_unsigned]
    exact hmanifest

/-- Without its signatures the envelope is another, under one manifest digest. -/
theorem unsigned_single {e : SignedEnvelope} (h : e.signatures ≠ []) :
    (bundleWith [e] []).CollisionFree host (bundleWith [unsigned e] []) ∧
      (bundleWith [e] []).manifest.digest = (bundleWith [unsigned e] []).manifest.digest ∧
      ¬(bundleWith [e] []).SameContents host (bundleWith [unsigned e] []) := by
  refine ⟨fun x y hx hy _ => ?_, ?_, fun hsame => ?_⟩
  · have hmessage : ∀ z, (bundleWith [e] []).Hashed host z ∨
        (bundleWith [unsigned e] []).Hashed host z → z = manifestMessage [e] [] := by
      rintro z (hz | hz)
      · exact hashed_single hz
      · rw [hashed_single hz, manifestMessage, manifestWith_unsigned, manifestMessage]
    rw [hmessage x hx, hmessage y hy]
  · exact congrArg BundleManifest.digest (manifestWith_unsigned e).symm
  · have hordered := List.singleton_perm_singleton.mp hsame.envelopes
    exact h (congrArg SignedEnvelope.signatures hordered)

end Reference

open Reference in
/-- Two attachments with digests of their own may be listed in either order. -/
theorem digest_commits_reordered :
    (bundleWith [] (attachedPair .null)).manifest.digest =
        (bundleWith [] (attachedPair .null).reverse).manifest.digest ↔
      (bundleWith [] (attachedPair .null)).SameContents host
        (bundleWith [] (attachedPair .null).reverse) := by
  have hmessages : manifestMessage [] (attachedPair .null).reverse =
      manifestMessage [] (attachedPair .null) := by
    decide +kernel
  have hnodup :
      ([manifestMessage [] (attachedPair .null), [0xf5], [0xf6]].map host.sha256).Nodup := by
    decide +kernel
  have hnull : (host.jsonClone .null >>= host.canonicalCbor) = .ok [0xf6] := by decide
  have hbody : attachmentBound host (attachment "policy" .null) = true := by decide
  have hdigests : (attachment "note" (.bool true)).digest ≠ (attachment "policy" .null).digest := by
    decide
  have hfree : (bundleWith [] (attachedPair .null)).CollisionFree host
      (bundleWith [] (attachedPair .null).reverse) := by
    refine collisionFree_of_nodup hnodup (fun x hx => ?_) fun x hx => ?_
    · have hx := hashed_pair (fun a ha => ha) hnull hx
      simpa only [List.mem_cons, List.not_mem_nil, or_false] using hx
    · have hx := hashed_pair (fun a ha => List.mem_reverse.mp ha) hnull hx
      rw [hmessages] at hx
      simpa only [List.mem_cons, List.not_mem_nil, or_false] using hx
  have hties : ∀ k, fibre BundleAttachment.digest (attachedPair .null) k =
      fibre BundleAttachment.digest (attachedPair .null).reverse k := by
    refine fibre_eq_of_perm (List.reverse_perm _).symm fun a ha a' ha' heq => ?_
    rcases List.mem_pair.mp ha with rfl | rfl <;> rcases List.mem_pair.mp ha' with rfl | rfl
    · rfl
    · exact absurd heq hdigests
    · exact absurd heq.symm hdigests
    · rfl
  refine (digest_commits_iff canonicalLaws keyedSort plain_of_jsonClone textOf_congr hfree
    (List.forall_mem_nil _) (attested_pair (fun a ha => ha) hbody (by decide))
    (attested_pair (fun a ha => List.mem_reverse.mp ha) hbody (by decide))).mpr
      fun _ => iff_of_true (List.Perm.refl _) ⟨fun k => ?_, fun _ => rfl⟩
  exact congrArg (List.map BundleAttachment.kind) (hties k)

open Reference in
/-- An envelope that loses its signatures keeps the digest of the manifest. -/
theorem unsigned_unnoticed :
    ∃ b c : EvidenceBundle, b.Attested host ∧ c.Attested host ∧ b.CollisionFree host c ∧
      b.manifest.digest = c.manifest.digest ∧ ¬b.SameContents host c := by
  have hmanifest : (manifestOf host [commitEnvelope sourceKey] [] []).isOk = true := by
    decide +kernel
  have hbare : (commitEnvelope sourceKey).checkpoint = none ∧
      (commitEnvelope sourceKey).attestation = none := by
    decide +kernel
  have hsequence : (sequenceCheck host [commitEnvelope sourceKey]).isSome = true := by
    decide +kernel
  obtain ⟨hb, hc⟩ := attested_single hmanifest hbare hsequence
  have hsigned : (commitEnvelope sourceKey).signatures ≠ [] := by decide +kernel
  exact ⟨_, _, hb, hc, unsigned_single hsigned⟩

open Reference in
/-- Two attachments with one body that change places change the digest of the manifest. -/
theorem tied_pair_noticed :
    ∃ b c : EvidenceBundle, b.Attested host ∧ c.Attested host ∧ b.CollisionFree host c ∧
      b.manifest.digest ≠ c.manifest.digest ∧ b.SameContents host c := by
  have hbody : attachmentBound host (attachment "policy" (.bool true)) = true := by decide
  have htrue : (host.jsonClone (.bool true) >>= host.canonicalCbor) = .ok [0xf5] := by
    decide
  have hnodup : ([manifestMessage [] (attachedPair (.bool true)),
      manifestMessage [] (attachedPair (.bool true)).reverse, [0xf5]].map
        host.sha256).Nodup := by
    decide +kernel
  refine ⟨bundleWith [] (attachedPair (.bool true)),
    bundleWith [] (attachedPair (.bool true)).reverse,
    attested_pair (fun a ha => ha) hbody (by decide),
    attested_pair (fun a ha => List.mem_reverse.mp ha) hbody (by decide),
    collisionFree_of_nodup hnodup (fun x hx => ?_) (fun x hx => ?_), by decide +kernel,
    ⟨List.Perm.refl _, List.Perm.refl _, (List.reverse_perm _).symm.map _⟩⟩
  · have hx := hashed_pair (fun a ha => ha) htrue hx
    rw [or_self] at hx
    simp only [List.mem_cons, List.not_mem_nil, or_false]
    exact hx.imp_right .inr
  · have hx := hashed_pair (fun a ha => List.mem_reverse.mp ha) htrue hx
    rw [or_self] at hx
    simp only [List.mem_cons, List.not_mem_nil, or_false]
    exact .inr hx

/-- The digest of a manifest leaves parts of its bundle out, and tells bundles apart that carry the
same. -/
theorem digest_no_commitment :
    (∃ b c : EvidenceBundle, b.Attested Reference.host ∧ c.Attested Reference.host ∧
      b.CollisionFree Reference.host c ∧ b.manifest.digest = c.manifest.digest ∧
      ¬b.SameContents Reference.host c) ∧
    ∃ b c : EvidenceBundle, b.Attested Reference.host ∧ c.Attested Reference.host ∧
      b.CollisionFree Reference.host c ∧ b.manifest.digest ≠ c.manifest.digest ∧
      b.SameContents Reference.host c :=
  ⟨unsigned_unnoticed, tied_pair_noticed⟩

end CoolSdk
