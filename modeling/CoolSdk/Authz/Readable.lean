import CoolSdk.Authz.DecisionReplay

/-!
# When a verifier answers

A verifier reads what it did not write: carried keys, times, a policy, facts, a chain. Some of
these reads throw, and which reads it comes to depends on what the ones before them gave. It
answers exactly where none of the reads it comes to throws.
-/

namespace CoolSdk

section

variable (H : Host)

/-- The keys of two entries can be compared. The ML-DSA halves are decoded only where the
Ed25519 halves are equal. -/
structure KeysReadable (a b : DirectoryEntry) : Prop where
  left : ∃ bytes, fromBase64Field H a.ed25519Pub = .ok bytes
  right : ∃ bytes, fromBase64Field H b.ed25519Pub = .ok bytes
  mlDsa : fromBase64Field H a.ed25519Pub = fromBase64Field H b.ed25519Pub →
    (∃ bytes, fromBase64Field H a.mlDsaPub = .ok bytes) ∧
      ∃ bytes, fromBase64Field H b.mlDsaPub = .ok bytes

/-- Two entries hold the same two keys. -/
structure SameKeys (a b : DirectoryEntry) : Prop where
  ed25519 : fromBase64Field H a.ed25519Pub = fromBase64Field H b.ed25519Pub
  mlDsa : fromBase64Field H a.mlDsaPub = fromBase64Field H b.mlDsaPub
  decodes : Decodes H a

variable {α : Type} [ToJs α]

/-- The carried keys of an object whose body has the stated digest can be compared with the
keys expected of it, if any are. -/
def SignerReadable (context : String) (s : Signed α) (expectedKey : Option DirectoryEntry) : Prop :=
  digestOf H context (toJs s.body) = .ok s.digest →
    ∀ key, expectedKey = some key → KeysReadable H key s.signer

/-- An object is signed under a key and carries that key. -/
structure Authentic (context : String) (s : Signed α) (key : DirectoryEntry) : Prop where
  signed : SignedUnder H context s key
  carried : SameKeys H key s.signer

end

variable {H : Host}

/-- Two entries are compared without a throw exactly when their keys can be. -/
theorem sameKey_ok_iff {a b : DirectoryEntry} :
    (∃ same, sameKey H a b = .ok same) ↔ KeysReadable H a b := by
  unfold sameKey
  constructor
  · rintro ⟨same, h⟩
    obtain ⟨x, hx, h⟩ := bind_eq_ok.mp h
    obtain ⟨y, hy, h⟩ := bind_eq_ok.mp h
    refine ⟨⟨x, hx⟩, ⟨y, hy⟩, ?_⟩
    intro heq
    obtain rfl : x = y := Except.ok.inj (hx.symm.trans (heq.trans hy))
    rw [if_pos ((bytesEqual_iff x x).mpr rfl)] at h
    obtain ⟨z, hz, h⟩ := bind_eq_ok.mp h
    obtain ⟨w, hw, _⟩ := bind_eq_ok.mp h
    exact ⟨⟨z, hz⟩, w, hw⟩
  · rintro ⟨⟨x, hx⟩, ⟨y, hy⟩, hml⟩
    rw [hx, hy, ok_bind, ok_bind]
    by_cases hxy : x = y
    · obtain ⟨⟨z, hz⟩, w, hw⟩ := hml (by rw [hx, hy, hxy])
      rw [if_pos ((bytesEqual_iff x y).mpr hxy), hz, hw]
      exact ⟨_, rfl⟩
    · rw [if_neg (mt (bytesEqual_iff x y).mp hxy)]
      exact ⟨_, rfl⟩

/-- Two entries compare as equal exactly when they hold the same keys. -/
theorem sameKey_eq_true_iff {a b : DirectoryEntry} :
    sameKey H a b = .ok true ↔ SameKeys H a b := by
  constructor
  · intro h
    unfold sameKey at h
    obtain ⟨x, hx, h⟩ := bind_eq_ok.mp h
    obtain ⟨y, hy, h⟩ := bind_eq_ok.mp h
    split at h
    · rename_i hxy
      obtain ⟨z, hz, h⟩ := bind_eq_ok.mp h
      obtain ⟨w, hw, h⟩ := bind_eq_ok.mp h
      obtain rfl := (bytesEqual_iff x y).mp hxy
      obtain rfl := (bytesEqual_iff z w).mp (Except.ok.inj h)
      exact ⟨hx.trans hy.symm, hz.trans hw.symm, ⟨x, hx⟩, z, hz⟩
    · cases h
  · rintro ⟨hed, hml, ⟨x, hx⟩, z, hz⟩
    have hy := hed.symm.trans hx
    have hw := hml.symm.trans hz
    have hself (c : Bytes) : bytesEqual c c = true := (bytesEqual_iff c c).mpr rfl
    simp only [sameKey, hx, hy, hz, hw, ok_bind, hself, if_true]

/-- A digest that is recomputed can be signed and verified. -/
theorem sigMessage_of_digestOf (hhash : ∀ data, (H.sha256 data).length = 32) {context : String}
    {body : JsValue} {digest : Multihash} (h : digestOf H context body = .ok digest) :
    ∃ message, sigMessage context digest = .ok message := by
  unfold digestOf at h
  obtain ⟨bytes, _, h⟩ := bind_eq_ok.mp h
  cases h
  have hraw := multihashDigest_toHex (hhash (utf8 (context ++ "\x00") ++ bytes))
  exact ⟨_, bind_eq_ok.mpr ⟨_, hraw, rfl⟩⟩

section

variable {α : Type} [ToJs α] {context : String} {s : Signed α}

/-- The integrity check passes exactly when the body has the stated digest. -/
theorem integrityCheck_pass_iff :
    (integrityCheck H context s).status = .pass ↔
      digestOf H context (toJs s.body) = .ok s.digest := by
  refine ⟨digestOf_of_integrityCheck H, ?_⟩
  intro h
  simp only [integrityCheck, h, if_true, check]

/-- Integrity and signature are checked without a throw exactly when the carried keys can be
compared with the expected ones, where they come to be. -/
theorem verifyIntegrity_ok_iff (hhash : ∀ data, (H.sha256 data).length = 32)
    {expectedKey : Option DirectoryEntry} :
    (∃ v, verifyIntegrity H context s expectedKey = .ok v) ↔
      SignerReadable H context s expectedKey := by
  unfold verifyIntegrity SignerReadable
  by_cases hdigest : digestOf H context (toJs s.body) = .ok s.digest
  · obtain ⟨message, hmessage⟩ := sigMessage_of_digestOf hhash hdigest
    have hpass := (integrityCheck_pass_iff (H := H)).mpr hdigest
    simp only [hpass, ne_eq, not_true_eq_false, if_false, hmessage, ok_bind, hdigest,
      forall_const]
    constructor
    · rintro ⟨v, h⟩ key rfl
      obtain ⟨substituted, h, _⟩ := bind_eq_ok.mp h
      obtain ⟨same, hsame, _⟩ := bind_eq_ok.mp h
      exact sameKey_ok_iff.mp ⟨same, hsame⟩
    · intro h
      have hsubstituted : ∃ substituted, keySubstituted H expectedKey s.signer =
          .ok substituted := by
        cases expectedKey with
        | none => exact ⟨_, rfl⟩
        | some key =>
          obtain ⟨same, hsame⟩ := sameKey_ok_iff.mpr (h key rfl)
          exact ⟨_, bind_eq_ok.mpr ⟨same, hsame, rfl⟩⟩
      obtain ⟨substituted, hsubstituted⟩ := hsubstituted
      rw [hsubstituted, ok_bind]
      split_ifs <;> exact ⟨_, rfl⟩
  · have hfail := mt (integrityCheck_pass_iff (H := H)).mp hdigest
    rw [if_pos hfail]
    exact iff_of_true ⟨_, rfl⟩ fun h => absurd h hdigest

/-- An object whose signature passes against an expected key is signed under the key and carries
it. -/
theorem authentic_of_verifyIntegrity {key : DirectoryEntry} {v : IntegrityChecks}
    (hv : verifyIntegrity H context s (some key) = .ok v) (hs : v.signature.status = .pass) :
    Authentic H context s key := by
  refine ⟨signedUnder_of_verifyIntegrity H hv hs, ?_⟩
  unfold verifyIntegrity at hv
  simp only at hv
  split at hv
  · cases hv
    cases hs
  · obtain ⟨substituted, hsubstituted, hv⟩ := bind_eq_ok.mp hv
    obtain ⟨same, hsame, hsubstituted⟩ := bind_eq_ok.mp hsubstituted
    cases same with
    | true => exact sameKey_eq_true_iff.mp hsame
    | false =>
      cases hsubstituted
      cases hv
      cases hs

/-- An object passes both checks against an expected key exactly when it is signed under the key
and carries it. -/
theorem pass_iff_authentic {key : DirectoryEntry} {v : IntegrityChecks}
    (hv : verifyIntegrity H context s (some key) = .ok v) :
    v.integrity.status = .pass ∧ v.signature.status = .pass ↔ Authentic H context s key := by
  refine ⟨fun h => authentic_of_verifyIntegrity hv h.2, ?_⟩
  rintro ⟨⟨hdigest, message, hmessage, hverify⟩, hcarried⟩
  have hpass := (integrityCheck_pass_iff (H := H)).mpr hdigest
  have hsubstituted : keySubstituted H (some key) s.signer = .ok false :=
    bind_eq_ok.mpr ⟨true, sameKey_eq_true_iff.mpr hcarried, rfl⟩
  unfold verifyIntegrity at hv
  simp only [hpass, ne_eq, not_true_eq_false, if_false, hsubstituted, hmessage, ok_bind,
    Bool.false_eq_true, Option.getD_some, hverify, if_true, Except.ok.injEq] at hv
  subst hv
  exact ⟨hpass, rfl⟩

/-- Trust is checked without a throw exactly when the carried keys can be compared with those
the store holds, where they come to be. -/
theorem verifyTrusted_ok_iff (hhash : ∀ data, (H.sha256 data).length = 32) {trust : TrustStore}
    {purpose : KeyPurpose} {now : JsNumber} :
    (∃ v, verifyTrusted H context s trust purpose now = .ok v) ↔
      SignerReadable H context s ((trust.get s.signature.keyId).map KeyRecord.entry) := by
  rw [← verifyIntegrity_ok_iff hhash, verifyTrusted]
  constructor
  · rintro ⟨v, h⟩
    obtain ⟨w, hw, _⟩ := bind_eq_ok.mp h
    exact ⟨w, hw⟩
  · rintro ⟨w, hw⟩
    exact ⟨_, bind_eq_ok.mpr ⟨w, hw, rfl⟩⟩

/-- An object whose trust passes carries the key the store holds. -/
theorem authentic_of_verifyTrusted {trust : TrustStore} {purpose : KeyPurpose} {now : JsNumber}
    {v : TrustedChecks} (hv : verifyTrusted H context s trust purpose now = .ok v)
    (ht : v.trusted.status = .pass) {record : KeyRecord}
    (hheld : trust.get s.signature.keyId = some record) :
    Authentic H context s record.entry := by
  unfold verifyTrusted at hv
  obtain ⟨w, hw, hv⟩ := bind_eq_ok.mp hv
  rw [hheld, Option.map_some] at hw
  obtain rfl := Except.ok.inj hv
  by_cases hs : w.signature.status = .pass
  · exact authentic_of_verifyIntegrity hw hs
  · simp only [hs, ne_eq, not_false_eq_true, if_true, check, reduceCtorEq] at ht

/-- An authentic object of a key the store trusts passes all three checks. -/
theorem pass_of_authentic {trust : TrustStore} {purpose : KeyPurpose} {now : JsNumber}
    {v : TrustedChecks} (hv : verifyTrusted H context s trust purpose now = .ok v)
    {record : KeyRecord} (hheld : trust.get s.signature.keyId = some record)
    (hauthentic : Authentic H context s record.entry)
    (htrusted : (trust.evaluate H { keyId := s.signature.keyId, purpose, now }).status = .pass) :
    v.integrity.status = .pass ∧ v.signature.status = .pass ∧ v.trusted.status = .pass := by
  unfold verifyTrusted at hv
  obtain ⟨w, hw, hv⟩ := bind_eq_ok.mp hv
  rw [hheld, Option.map_some] at hw
  obtain ⟨hi, hs⟩ := (pass_iff_authentic hw).mpr hauthentic
  rw [if_neg (not_not.mpr hs)] at hv
  obtain rfl := Except.ok.inj hv
  exact ⟨hi, hs, htrusted⟩

end

/-! ## Principals -/

namespace PrincipalDirectory

/-- A check of a principal can show the moment it is made at: the moment is a valid date, or the
principal has expired, which is said without it. -/
def MomentReadable (H : Host) (dir : PrincipalDirectory) (principalId : String)
    (at_ : JsNumber) : Prop :=
  (∃ text, toISOString at_ = .ok text) ∨
    ((dir.stateAt H principalId at_).known = true ∧
      expired H (dir.stateAt H principalId at_) at_ = true)

variable {dir : PrincipalDirectory} {principalId : String} {at_ : JsNumber}

/-- A principal is checked without a throw exactly when the moment can be shown. -/
theorem check_ok_iff :
    (∃ c, dir.check H principalId at_ none = .ok c) ↔ dir.MomentReadable H principalId at_ := by
  constructor
  · rintro ⟨c, h⟩
    unfold check at h
    by_cases hk : (dir.stateAt H principalId at_).known = true
    · by_cases he : expired H (dir.stateAt H principalId at_) at_ = true
      · exact .inr ⟨hk, he⟩
      · simp only [hk, he, Bool.not_true, Bool.false_eq_true, if_false] at h
        split at h
        · obtain ⟨text, htext, _⟩ := bind_eq_ok.mp h
          exact .inl ⟨text, htext⟩
        · split at h
          · obtain ⟨text, htext, _⟩ := bind_eq_ok.mp h
            exact .inl ⟨text, htext⟩
          · obtain ⟨text, htext, _⟩ := bind_eq_ok.mp h
            exact .inl ⟨text, htext⟩
    · simp only [hk, Bool.not_false, if_true] at h
      obtain ⟨text, htext, _⟩ := bind_eq_ok.mp h
      exact .inl ⟨text, htext⟩
  · rintro (⟨text, htext⟩ | ⟨hk, he⟩)
    · simp only [check, htext, ok_bind]
      split_ifs <;> exact ⟨_, rfl⟩
    · simp only [check, hk, he, Bool.not_true, Bool.false_eq_true, if_false, if_true]
      exact ⟨_, rfl⟩

/-- Where the moment can be shown, the usable principals are the active ones. -/
theorem usable_iff_active (hmoment : dir.MomentReadable H principalId at_) :
    dir.Usable H principalId at_ ↔ dir.ActiveAt H principalId at_ := by
  refine ⟨Usable.active, ?_⟩
  intro hactive
  have hexpired := hactive.unexpired
  obtain ⟨text, htext⟩ := hmoment.resolve_right fun h => by
    rw [h.2] at hexpired
    cases hexpired
  obtain ⟨c, hc⟩ := check_ok_iff.mpr hmoment
  refine ⟨c, hc, ?_⟩
  simp only [check, hactive.known, hactive.unexpired, hactive.status, htext, ok_bind, Bool.not_true,
    Bool.false_eq_true, if_false, ne_eq, not_true_eq_false, nonEmpty, Option.filter_none,
    Option.any_none, Except.ok.injEq] at hc
  exact hc ▸ rfl

end PrincipalDirectory

/-! ## Chains -/

section

variable (H : Host)

/-- The moments of some parties can be shown, each one's where those before it were active. -/
def PartiesReadable (dir : PrincipalDirectory) : List (String × JsNumber) → Prop
  | [] => True
  | (who, moment) :: rest =>
    dir.MomentReadable H who moment ∧ (dir.ActiveAt H who moment → PartiesReadable dir rest)

/-- The parties a link is refused without, each at its moment. -/
def linkParties (o : ChainOptions) (d : Delegation) : List (String × JsNumber) :=
  [(d.delegator, dateNumber H d.issuedAt), (d.delegator, o.at_), (d.delegate, o.at_)]

/-- A link repeats an id or a principal of the walk. -/
def Repeats (seenIds seenPrincipals : List String) (d : Delegation) : Prop :=
  d.delegationId ∈ seenIds ∨ d.delegate ∈ seenPrincipals

/-- What is read of a link the walk reaches can be read. -/
structure LinkReadable (o : ChainOptions) (seenIds seenPrincipals : List String)
    (s : Signed Delegation) : Prop where
  signer : ¬Repeats seenIds seenPrincipals s.body →
    SignerReadable H "cool.delegation.v1" s
      (o.directory.keyAt H s.body.delegator s.signature.keyId (dateNumber H s.body.issuedAt))
  parties : ¬Repeats seenIds seenPrincipals s.body → ∀ key,
    o.directory.keyAt H s.body.delegator s.signature.keyId (dateNumber H s.body.issuedAt) =
      some key → Authentic H "cool.delegation.v1" s key →
        PartiesReadable H o.directory (linkParties H o s.body)

/-- A link gives the walk no reason to stop. -/
structure LinkStands (o : ChainOptions) (seenIds seenPrincipals : List String)
    (prev : Option Delegation) (s : Signed Delegation) : Prop where
  unrepeated : ¬Repeats seenIds seenPrincipals s.body
  authentic : ∃ key,
    o.directory.keyAt H s.body.delegator s.signature.keyId (dateNumber H s.body.issuedAt) =
      some key ∧ Authentic H "cool.delegation.v1" s key
  parties : ∀ party ∈ linkParties H o s.body, o.directory.ActiveAt H party.1 party.2
  window : windowRefusal H o s.body = none
  position : positionRefusal H o prev s.body = none

/-- What is read of the links of a walk can be read, as far as it goes. -/
def WalkReadable (o : ChainOptions) :
    List String → List String → Option Delegation → List (Signed Delegation) → Prop
  | _, _, _, [] => True
  | seenIds, seenPrincipals, prev, s :: rest =>
    LinkReadable H o seenIds seenPrincipals s ∧
      (LinkStands H o seenIds seenPrincipals prev s →
        WalkReadable o (s.body.delegationId :: seenIds) (s.body.delegate :: seenPrincipals)
          (some s.body) rest)

/-- What is read of a chain can be read: nothing where it is too deep, else its walk. -/
def ChainReadable (o : ChainOptions) : List (Signed Delegation) → Prop
  | [] => True
  | root :: rest =>
    (o.maxDepth.getD (.ofInt 4)).lt (.ofInt ((root :: rest).length : Int)) = false →
      WalkReadable H o [] [root.body.delegator] none (root :: rest)

end

/-- The parties of a link are checked without a throw exactly when their moments can be shown. -/
theorem partiesRefusal_ok_iff {dir : PrincipalDirectory} {ref : String}
    {parties : List (String × JsNumber)} :
    (∃ refusal, partiesRefusal H dir ref parties = .ok refusal) ↔
      PartiesReadable H dir parties := by
  induction parties with
  | nil => exact iff_of_true ⟨_, rfl⟩ trivial
  | cons party rest ih =>
    obtain ⟨who, moment⟩ := party
    rw [PartiesReadable, ← ih, ← PrincipalDirectory.check_ok_iff, partiesRefusal]
    constructor
    · rintro ⟨refusal, h⟩
      obtain ⟨c, hc, h⟩ := bind_eq_ok.mp h
      refine ⟨⟨c, hc⟩, ?_⟩
      intro hactive
      obtain ⟨c', hc', hpass⟩ := (PrincipalDirectory.usable_iff_active
        (PrincipalDirectory.check_ok_iff.mp ⟨c, hc⟩)).mpr hactive
      obtain rfl : c = c' := Except.ok.inj (hc.symm.trans hc')
      rw [if_neg (not_not.mpr hpass)] at h
      exact ⟨refusal, h⟩
    · rintro ⟨⟨c, hc⟩, hrest⟩
      rw [hc, ok_bind]
      split_ifs with hpass
      · exact ⟨_, rfl⟩
      · exact hrest (PrincipalDirectory.active_of_check hc (not_not.mp hpass))

/-- Where their moments can be shown, parties are let through exactly when all are active. -/
theorem partiesRefusal_eq_none_iff {dir : PrincipalDirectory} {ref : String}
    {parties : List (String × JsNumber)} (hreadable : PartiesReadable H dir parties) :
    partiesRefusal H dir ref parties = .ok none ↔
      ∀ party ∈ parties, dir.ActiveAt H party.1 party.2 := by
  induction parties with
  | nil => exact iff_of_true rfl fun party h => absurd h List.not_mem_nil
  | cons party rest ih =>
    obtain ⟨who, moment⟩ := party
    obtain ⟨hmoment, hrest⟩ := hreadable
    obtain ⟨c, hc⟩ := PrincipalDirectory.check_ok_iff.mpr hmoment
    rw [partiesRefusal, hc, ok_bind, List.forall_mem_cons]
    by_cases hpass : c.status = .pass
    · have hactive := PrincipalDirectory.active_of_check hc hpass
      rw [if_neg (not_not.mpr hpass), ih (hrest hactive)]
      exact (and_iff_right hactive).symm
    · rw [if_pos hpass]
      refine iff_of_false nofun ?_
      rintro ⟨hactive, _⟩
      obtain ⟨c', hc', hpass'⟩ := (PrincipalDirectory.usable_iff_active hmoment).mpr hactive
      obtain rfl : c = c' := Except.ok.inj (hc.symm.trans hc')
      exact hpass hpass'

private theorem repeats_iff {seenIds seenPrincipals : List String} {d : Delegation} :
    (seenIds.contains d.delegationId || seenPrincipals.contains d.delegate) = true ↔
      Repeats seenIds seenPrincipals d := by
  simp only [Repeats, Bool.or_eq_true, List.contains_iff_mem]

/-- An authentic link is judged by its parties, its window and its position. -/
theorem linkRefusal_of_authentic {o : ChainOptions} {seenIds seenPrincipals : List String}
    {s : Signed Delegation} (hr : ¬Repeats seenIds seenPrincipals s.body) {key : DirectoryEntry}
    (hk : o.directory.keyAt H s.body.delegator s.signature.keyId (dateNumber H s.body.issuedAt) =
      some key)
    (hsigner : ∃ v, verifyIntegrity H "cool.delegation.v1" s (some key) = .ok v)
    (hauthentic : Authentic H "cool.delegation.v1" s key) (prev : Option Delegation) :
    linkRefusal H o seenIds seenPrincipals prev s =
      (partiesRefusal H o.directory ("delegation " ++ s.body.delegationId)
          (linkParties H o s.body) >>= fun party =>
        .ok (party.or ((windowRefusal H o s.body).or (positionRefusal H o prev s.body)))) := by
  obtain ⟨v, hv⟩ := hsigner
  obtain ⟨hi, hs⟩ := (pass_iff_authentic hv).mpr hauthentic
  unfold linkRefusal
  simp only
  rw [if_neg (mt repeats_iff.mp hr), hk]
  simp only [hv, hi, hs, ok_bind, ne_eq, not_true_eq_false, if_false, linkParties]

/-- A link that is not authentic is refused. -/
theorem linkRefusal_of_not_authentic {o : ChainOptions} {seenIds seenPrincipals : List String}
    {s : Signed Delegation} (hr : ¬Repeats seenIds seenPrincipals s.body) {key : DirectoryEntry}
    (hk : o.directory.keyAt H s.body.delegator s.signature.keyId (dateNumber H s.body.issuedAt) =
      some key)
    (hsigner : ∃ v, verifyIntegrity H "cool.delegation.v1" s (some key) = .ok v)
    (hauthentic : ¬Authentic H "cool.delegation.v1" s key) (prev : Option Delegation) :
    ∃ c, linkRefusal H o seenIds seenPrincipals prev s = .ok (some c) := by
  obtain ⟨v, hv⟩ := hsigner
  unfold linkRefusal
  simp only
  rw [if_neg (mt repeats_iff.mp hr), hk]
  simp only [hv, ok_bind]
  split_ifs with hi hs
  · exact ⟨_, rfl⟩
  · exact ⟨_, rfl⟩
  · exact absurd ((pass_iff_authentic hv).mp ⟨not_not.mp hi, not_not.mp hs⟩) hauthentic

/-- A link is judged without a throw exactly when what is read of it can be read. -/
theorem linkRefusal_ok_iff (hhash : ∀ data, (H.sha256 data).length = 32) {o : ChainOptions}
    {seenIds seenPrincipals : List String} {prev : Option Delegation} {s : Signed Delegation} :
    (∃ refusal, linkRefusal H o seenIds seenPrincipals prev s = .ok refusal) ↔
      LinkReadable H o seenIds seenPrincipals s := by
  by_cases hr : Repeats seenIds seenPrincipals s.body
  · have hrefused : ∃ refusal, linkRefusal H o seenIds seenPrincipals prev s = .ok refusal := by
      unfold linkRefusal
      simp only
      rw [if_pos (repeats_iff.mpr hr)]
      exact ⟨_, rfl⟩
    exact iff_of_true hrefused ⟨fun h => absurd hr h, fun h => absurd hr h⟩
  · cases hk : o.directory.keyAt H s.body.delegator s.signature.keyId
        (dateNumber H s.body.issuedAt) with
    | none =>
      have hrefused : ∃ refusal, linkRefusal H o seenIds seenPrincipals prev s = .ok refusal := by
        unfold linkRefusal
        simp only
        rw [if_neg (mt repeats_iff.mp hr), hk]
        exact ⟨_, rfl⟩
      refine iff_of_true hrefused ⟨?_, ?_⟩
      · intro _ _ key hkey
        rw [hk] at hkey
        cases hkey
      · intro _ key hkey
        rw [hk] at hkey
        cases hkey
    | some key =>
      constructor
      · rintro ⟨refusal, h⟩
        have hsigner : ∃ v, verifyIntegrity H "cool.delegation.v1" s (some key) = .ok v := by
          unfold linkRefusal at h
          simp only at h
          rw [if_neg (mt repeats_iff.mp hr), hk] at h
          obtain ⟨v, hv, _⟩ := bind_eq_ok.mp h
          exact ⟨v, hv⟩
        refine ⟨fun _ => hk ▸ (verifyIntegrity_ok_iff hhash).mp hsigner, ?_⟩
        intro _ key' hkey hauthentic
        obtain rfl : key = key' := Option.some.inj (hk.symm.trans hkey)
        rw [linkRefusal_of_authentic hr hk hsigner hauthentic] at h
        obtain ⟨party, hparty, _⟩ := bind_eq_ok.mp h
        exact partiesRefusal_ok_iff.mp ⟨party, hparty⟩
      · rintro ⟨hsigner, hparties⟩
        replace hsigner := (verifyIntegrity_ok_iff hhash).mpr (hk ▸ hsigner hr)
        by_cases hauthentic : Authentic H "cool.delegation.v1" s key
        · obtain ⟨party, hparty⟩ : ∃ party, partiesRefusal H o.directory
              ("delegation " ++ s.body.delegationId) (linkParties H o s.body) = .ok party :=
            partiesRefusal_ok_iff.mpr (hparties hr key hk hauthentic)
          rw [linkRefusal_of_authentic hr hk hsigner hauthentic]
          exact ⟨_, bind_eq_ok.mpr ⟨party, hparty, rfl⟩⟩
        · obtain ⟨c, hc⟩ := linkRefusal_of_not_authentic hr hk hsigner hauthentic prev
          exact ⟨_, hc⟩

/-- A link that can be read is not refused exactly when it stands. -/
theorem linkRefusal_eq_none_iff (hhash : ∀ data, (H.sha256 data).length = 32) {o : ChainOptions}
    {seenIds seenPrincipals : List String} {prev : Option Delegation} {s : Signed Delegation}
    (hreadable : LinkReadable H o seenIds seenPrincipals s) :
    linkRefusal H o seenIds seenPrincipals prev s = .ok none ↔
      LinkStands H o seenIds seenPrincipals prev s := by
  have hjudged {key : DirectoryEntry} (hr : ¬Repeats seenIds seenPrincipals s.body)
      (hk : o.directory.keyAt H s.body.delegator s.signature.keyId
        (dateNumber H s.body.issuedAt) = some key)
      (hauthentic : Authentic H "cool.delegation.v1" s key) :
      linkRefusal H o seenIds seenPrincipals prev s = .ok none ↔
        (∀ party ∈ linkParties H o s.body, o.directory.ActiveAt H party.1 party.2) ∧
          windowRefusal H o s.body = none ∧ positionRefusal H o prev s.body = none := by
    have hactive : partiesRefusal H o.directory ("delegation " ++ s.body.delegationId)
        (linkParties H o s.body) = .ok none ↔
          ∀ party ∈ linkParties H o s.body, o.directory.ActiveAt H party.1 party.2 :=
      partiesRefusal_eq_none_iff (hreadable.parties hr key hk hauthentic)
    rw [linkRefusal_of_authentic hr hk
        ((verifyIntegrity_ok_iff hhash).mpr (hk ▸ hreadable.signer hr)) hauthentic,
      ← hactive, bind_eq_ok]
    constructor
    · rintro ⟨party, hparty, h⟩
      have hnone := Except.ok.inj h
      rw [Option.or_eq_none_iff, Option.or_eq_none_iff] at hnone
      exact ⟨hnone.1 ▸ hparty, hnone.2⟩
    · rintro ⟨hparty, hwindow, hposition⟩
      exact ⟨none, hparty, by rw [hwindow, hposition]; rfl⟩
  constructor
  · intro h
    have hr : ¬Repeats seenIds seenPrincipals s.body := by
      intro hr
      unfold linkRefusal at h
      simp only at h
      rw [if_pos (repeats_iff.mpr hr)] at h
      cases h
    obtain ⟨key, hk, _⟩ := (linkAccepted_of_linkRefusal h).1.signed
    have hauthentic : Authentic H "cool.delegation.v1" s key := by
      by_contra hauthentic
      obtain ⟨c, hc⟩ := linkRefusal_of_not_authentic hr hk
        ((verifyIntegrity_ok_iff hhash).mpr (hk ▸ hreadable.signer hr)) hauthentic prev
      rw [h] at hc
      cases hc
    obtain ⟨hparties, hwindow, hposition⟩ := (hjudged hr hk hauthentic).mp h
    exact ⟨hr, ⟨key, hk, hauthentic⟩, hparties, hwindow, hposition⟩
  · rintro ⟨hr, ⟨key, hk, hauthentic⟩, hparties, hwindow, hposition⟩
    exact (hjudged hr hk hauthentic).mpr ⟨hparties, hwindow, hposition⟩

/-- A walk ends without a throw exactly when what is read of its links can be read, as far as it
goes. -/
theorem chainRefusal_ok_iff (hhash : ∀ data, (H.sha256 data).length = 32) {o : ChainOptions}
    {chain : List (Signed Delegation)} {seenIds seenPrincipals : List String}
    {prev : Option Delegation} :
    (∃ refusal, chainRefusal H o seenIds seenPrincipals prev chain = .ok refusal) ↔
      WalkReadable H o seenIds seenPrincipals prev chain := by
  induction chain generalizing seenIds seenPrincipals prev with
  | nil => exact iff_of_true ⟨_, rfl⟩ trivial
  | cons s rest ih =>
    have hlink : (∃ refusal, linkRefusal H o seenIds seenPrincipals prev s = .ok refusal) ↔
        LinkReadable H o seenIds seenPrincipals s := linkRefusal_ok_iff hhash
    rw [WalkReadable, ← ih, ← hlink, chainRefusal]
    constructor
    · rintro ⟨refusal, h⟩
      obtain ⟨c, hc, h⟩ := bind_eq_ok.mp h
      refine ⟨⟨c, hc⟩, ?_⟩
      intro hstands
      have hnone := (linkRefusal_eq_none_iff hhash
        ((linkRefusal_ok_iff hhash).mp ⟨c, hc⟩)).mpr hstands
      obtain rfl : c = none := Except.ok.inj (hc.symm.trans hnone)
      exact ⟨refusal, h⟩
    · rintro ⟨⟨c, hc⟩, hrest⟩
      rw [hc, ok_bind]
      cases c with
      | some c => exact ⟨_, rfl⟩
      | none =>
        exact hrest ((linkRefusal_eq_none_iff hhash
          ((linkRefusal_ok_iff hhash).mp ⟨none, hc⟩)).mp hc)

/-- A chain is verified without a throw exactly when what is read of it can be read. -/
theorem verifyDelegationChain_ok_iff (hhash : ∀ data, (H.sha256 data).length = 32)
    {chain : List (Signed Delegation)} {request : ChainRequest} {o : ChainOptions} :
    (∃ c, verifyDelegationChain H chain request o = .ok c) ↔ ChainReadable H o chain := by
  cases chain with
  | nil => exact iff_of_true ⟨_, rfl⟩ trivial
  | cons root rest =>
    rw [ChainReadable, ← chainRefusal_ok_iff hhash]
    unfold verifyDelegationChain
    simp only
    cases hdepth : (o.maxDepth.getD (.ofInt 4)).lt (.ofInt ((root :: rest).length : Int)) with
    | true =>
      rw [if_pos rfl]
      exact iff_of_true ⟨_, rfl⟩ nofun
    | false =>
      simp only [Bool.false_eq_true, if_false, forall_const]
      constructor
      · rintro ⟨c, h⟩
        obtain ⟨refusal, hrefusal, _⟩ := bind_eq_ok.mp h
        exact ⟨refusal, hrefusal⟩
      · rintro ⟨refusal, hrefusal⟩
        rw [hrefusal, ok_bind]
        cases refusal <;> exact ⟨_, rfl⟩

/-! ## Decisions -/

/-- What an offered chain is verified against. -/
def ChainOffer.options (offer : ChainOffer) (directory : PrincipalDirectory) (at_ : JsNumber) :
    ChainOptions :=
  { directory, roots := offer.roots, at_, revoked := offer.revoked }

section

variable (H : Host)

/-- What a replay reads can be read: the facts have a digest, and where it is the recorded one and
the request had not expired, the policy can be evaluated on the facts at the recorded time. -/
def ReplayReadable (r : AuthorizationRequest) (d : AuthorizationDecision) (p : PolicyDocument)
    (allFacts : Facts) : Prop :=
  ∃ digest, digestOf H "cool.authz.facts.v1" (.object allFacts) = .ok digest ∧
    (digest = d.inputDigest → ¬r.Expired H (dateNumber H d.decidedAt) →
      validatePolicy H p = [] ∧
        (∃ bytes, H.canonicalCbor (.object (sortedFacts H allFacts)) = .ok bytes) ∧
        ∃ text, toISOString (dateNumber H d.decidedAt) = .ok text)

/-- What is read of a decision, and of what it is presented with, can be read. -/
structure DecisionReadable (s : Signed AuthorizationDecision) (o : VerifyDecisionOptions) :
    Prop where
  signer : SignerReadable H "cool.authz-decision.v1" s
    ((o.trust.get s.signature.keyId).map KeyRecord.entry)
  request : ∃ digest, requestDigest H o.request = .ok digest
  policy : ∀ p, o.policy = some p → ∃ digest, policyDigest H p = .ok digest
  replay : ∀ p facts, o.policy = some p → o.facts = some facts → s.body.evaluator = evaluator →
    policyDigest H p = .ok s.body.policy.digest →
      ReplayReadable H o.request s.body p (decisionFacts o.request facts)
  principal : ∀ dir, o.directory = some dir →
    dir.MomentReadable H o.request.principal (dateNumber H s.body.decidedAt)
  delegation : ∀ named offer dir, nonEmpty o.request.delegation = some named →
    o.delegation = some offer → o.directory = some dir →
      (offer.chain.getLast?.map fun l => l.body.delegationId) = some named →
        ChainReadable H (offer.options dir (dateNumber H s.body.decidedAt)) offer.chain

end

/-- A policy is compared with the one a decision names exactly when it has a digest. -/
theorem policyBindingCheck_ok_iff {policy : Option PolicyDocument} {d : AuthorizationDecision} :
    (∃ c, policyBindingCheck H policy d = .ok c) ↔
      ∀ p, policy = some p → ∃ digest, policyDigest H p = .ok digest := by
  cases policy with
  | none => exact iff_of_true ⟨_, rfl⟩ nofun
  | some p =>
    constructor
    · rintro ⟨c, h⟩ p' hp
      obtain rfl : p = p' := Option.some.inj hp
      unfold policyBindingCheck at h
      obtain ⟨digest, hdigest, _⟩ := bind_eq_ok.mp h
      exact ⟨digest, hdigest⟩
    · intro h
      obtain ⟨digest, hdigest⟩ := h p rfl
      simp only [policyBindingCheck, hdigest, ok_bind]
      split_ifs <;> exact ⟨_, rfl⟩

/-- The comparison passes exactly when the digest is the one the decision names. -/
theorem policyBindingCheck_pass_iff {p : PolicyDocument} {d : AuthorizationDecision} {c : Check}
    (h : policyBindingCheck H (some p) d = .ok c) :
    c.status = .pass ↔ policyDigest H p = .ok d.policy.digest := by
  constructor
  · intro hpass
    exact policyDigest_of_policyBindingCheck h (by rw [hpass]; exact nofun)
  · intro hdigest
    simp only [policyBindingCheck, hdigest, ok_bind, ne_eq, not_true_eq_false, if_false,
      Except.ok.injEq] at h
    exact h ▸ rfl

/-- A replay ends without a throw exactly when the request had expired or the policy can be
evaluated. -/
theorem replay_ok_iff {r : AuthorizationRequest} {d : AuthorizationDecision} {p : PolicyDocument}
    {allFacts : Facts} (hpolicy : ∃ digest, policyDigest H p = .ok digest) :
    (∃ again, replay H r d p allFacts = .ok again) ↔
      (¬r.Expired H (dateNumber H d.decidedAt) → validatePolicy H p = [] ∧
        (∃ bytes, H.canonicalCbor (.object (sortedFacts H allFacts)) = .ok bytes) ∧
        ∃ text, toISOString (dateNumber H d.decidedAt) = .ok text) := by
  unfold replay AuthorizationRequest.Expired
  by_cases hexpired : (dateNumber H r.expiresAt).lt (dateNumber H d.decidedAt) = true
  · rw [if_pos hexpired]
    exact iff_of_true ⟨_, rfl⟩ fun h => absurd hexpired h
  · rw [if_neg hexpired]
    constructor
    · rintro ⟨again, h⟩ _
      obtain ⟨evaluated, hevaluated, _⟩ := bind_eq_ok.mp h
      obtain ⟨hvalid, _, hfacts, htime⟩ := evaluatePolicy_ok_iff.mp ⟨evaluated, hevaluated⟩
      exact ⟨hvalid, hfacts, htime⟩
    · intro h
      obtain ⟨hvalid, hfacts, htime⟩ := h hexpired
      obtain ⟨evaluated, hevaluated⟩ :=
        evaluatePolicy_ok_iff.mpr ⟨hvalid, hpolicy, hfacts, htime⟩
      exact ⟨_, bind_eq_ok.mpr ⟨evaluated, hevaluated, rfl⟩⟩

/-- A decision is replayed without a throw exactly when what the replay reads can be read, where
the known evaluator, the policy and the facts let it come to that. -/
theorem reproducedCheck_ok_iff {r : AuthorizationRequest} {d : AuthorizationDecision}
    {policy : Option PolicyDocument} {facts : Option Facts} {binding : Check}
    (hbinding : policyBindingCheck H policy d = .ok binding) :
    (∃ c, reproducedCheck H r d policy facts binding = .ok c) ↔
      ∀ p facts', policy = some p → facts = some facts' → d.evaluator = evaluator →
        policyDigest H p = .ok d.policy.digest →
          ReplayReadable H r d p (decisionFacts r facts') := by
  unfold reproducedCheck
  by_cases hevaluator : d.evaluator = evaluator
  · rw [if_neg (not_not.mpr hevaluator)]
    cases policy with
    | none => exact iff_of_true ⟨_, rfl⟩ nofun
    | some p =>
      cases facts with
      | none => exact iff_of_true ⟨_, rfl⟩ fun _ _ _ h => nomatch h
      | some facts =>
        have hgiven : (∀ p' facts', some p = some p' → some facts = some facts' →
            d.evaluator = evaluator → policyDigest H p' = .ok d.policy.digest →
              ReplayReadable H r d p' (decisionFacts r facts')) ↔
            (policyDigest H p = .ok d.policy.digest →
              ReplayReadable H r d p (decisionFacts r facts)) := by
          refine ⟨fun h => h p facts rfl rfl hevaluator, ?_⟩
          rintro h _ _ ⟨⟩ ⟨⟩ _
          exact h
        rw [hgiven]
        simp only
        by_cases hbound : policyDigest H p = .ok d.policy.digest
        · have hpass := (policyBindingCheck_pass_iff hbinding).mpr hbound
          rw [if_neg (not_not.mpr hpass)]
          simp only [hbound, forall_const, ReplayReadable]
          constructor
          · rintro ⟨c, h⟩
            obtain ⟨digest, hdigest, h⟩ := bind_eq_ok.mp h
            refine ⟨digest, hdigest, ?_⟩
            intro hsame
            rw [if_neg (not_not.mpr hsame)] at h
            obtain ⟨again, hagain, _⟩ := bind_eq_ok.mp h
            exact (replay_ok_iff ⟨_, hbound⟩).mp ⟨again, hagain⟩
          · rintro ⟨digest, hdigest, hreplay⟩
            rw [hdigest, ok_bind]
            split_ifs with hsame
            · exact ⟨_, rfl⟩
            · obtain ⟨again, hagain⟩ := (replay_ok_iff ⟨_, hbound⟩).mpr (hreplay (not_not.mp hsame))
              rw [hagain, ok_bind]
              split_ifs <;> exact ⟨_, rfl⟩
        · have hfail := mt (policyBindingCheck_pass_iff hbinding).mp hbound
          rw [if_pos hfail]
          exact iff_of_true ⟨_, rfl⟩ fun h => absurd h hbound
  · rw [if_pos hevaluator]
    exact iff_of_true ⟨_, rfl⟩ fun _ _ _ _ h => absurd h hevaluator

/-- The principal of a request is checked without a throw exactly when the moment can be shown,
where there is a directory. -/
theorem principalStateCheck_ok_iff {directory : Option PrincipalDirectory} {principal : String}
    {at_ : JsNumber} :
    (∃ c, principalStateCheck H directory principal at_ = .ok c) ↔
      ∀ dir, directory = some dir → dir.MomentReadable H principal at_ := by
  cases directory with
  | none => exact iff_of_true ⟨_, rfl⟩ nofun
  | some dir =>
    simp only [principalStateCheck, PrincipalDirectory.check_ok_iff, Option.some.injEq,
      forall_eq']

/-- The chain of a request is checked without a throw exactly when what is read of it can be
read, where the request names its leaf. -/
theorem delegationCheck_ok_iff (hhash : ∀ data, (H.sha256 data).length = 32)
    {r : AuthorizationRequest} {offer : Option ChainOffer}
    {directory : Option PrincipalDirectory} {at_ : JsNumber} :
    (∃ c, delegationCheck H r offer directory at_ = .ok c) ↔
      ∀ named offer' dir, nonEmpty r.delegation = some named → offer = some offer' →
        directory = some dir →
          (offer'.chain.getLast?.map fun l => l.body.delegationId) = some named →
            ChainReadable H (offer'.options dir at_) offer'.chain := by
  unfold delegationCheck
  cases nonEmpty r.delegation with
  | none => exact iff_of_true ⟨_, rfl⟩ nofun
  | some named =>
    cases offer with
    | none => exact iff_of_true ⟨_, rfl⟩ fun _ _ _ _ h => nomatch h
    | some offer =>
      cases directory with
      | none => exact iff_of_true ⟨_, rfl⟩ fun _ _ _ _ _ h => nomatch h
      | some dir =>
        have hgiven : (∀ named' offer' dir', some named = some named' → some offer = some offer' →
            some dir = some dir' →
              (offer'.chain.getLast?.map fun l => l.body.delegationId) = some named' →
                ChainReadable H (offer'.options dir' at_) offer'.chain) ↔
            ((offer.chain.getLast?.map fun l => l.body.delegationId) = some named →
              ChainReadable H (offer.options dir at_) offer.chain) := by
          refine ⟨fun h => h named offer dir rfl rfl rfl, ?_⟩
          rintro h _ _ _ ⟨⟩ ⟨⟩ ⟨⟩
          exact h
        rw [hgiven]
        simp only
        by_cases hleaf : (offer.chain.getLast?.map fun l => l.body.delegationId) = some named
        · rw [if_neg (not_not.mpr hleaf), forall_prop_of_true hleaf]
          exact verifyDelegationChain_ok_iff hhash
        · rw [if_pos hleaf]
          exact iff_of_true ⟨_, rfl⟩ fun h => absurd h hleaf

/-- A decision is verified without a throw exactly when what is read of it, and of what it is
presented with, can be read. -/
theorem verifyDecision_ok_iff_readable (hhash : ∀ data, (H.sha256 data).length = 32)
    {s : Signed AuthorizationDecision} {o : VerifyDecisionOptions} :
    (∃ report, verifyDecision H s o = .ok report) ↔ DecisionReadable H s o := by
  rw [verifyDecision_ok_iff, verifyTrusted_ok_iff hhash, principalStateCheck_ok_iff,
    delegationCheck_ok_iff hhash]
  constructor
  · rintro ⟨hsigner, hrequest, ⟨binding, reproduced, hbinding, hreproduced⟩, hprincipal,
      hdelegation⟩
    exact
      { signer := hsigner
        request := hrequest
        policy := policyBindingCheck_ok_iff.mp ⟨binding, hbinding⟩
        replay := (reproducedCheck_ok_iff hbinding).mp ⟨reproduced, hreproduced⟩
        principal := hprincipal
        delegation := hdelegation }
  · intro h
    obtain ⟨binding, hbinding⟩ := policyBindingCheck_ok_iff.mpr h.policy
    obtain ⟨reproduced, hreproduced⟩ := (reproducedCheck_ok_iff hbinding).mpr h.replay
    exact ⟨h.signer, h.request, ⟨binding, reproduced, hbinding, hreproduced⟩, h.principal,
      h.delegation⟩

end CoolSdk
