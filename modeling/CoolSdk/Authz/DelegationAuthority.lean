import CoolSdk.Authz.Delegation
import CoolSdk.Authz.PrincipalIssuer

/-!
# No privilege amplification along a chain

Authority only shrinks from the root to the leaf: whatever the leaf permits, every link
permits. The leaf is held against the request, and the step from a link to its parent
is one lemma about scopes; the chain follows by induction from the leaf backwards.
-/

namespace CoolSdk

variable {H : Host}

/-- A scope permits an action on a resource for an amount. -/
structure Scope.Permits (scope : Scope) (request : ChainRequest) : Prop where
  action : request.action ∈ scope.actions
  resource : ∃ p ∈ scope.resources, covers p request.resource = true
  amount : ∀ limit, scope.maxAmount = some limit →
    ∃ a, request.amount = some a ∧ a.le limit = true

/-- A child lists no empty text that its parent does not cover. -/
structure Scope.NoEmptyExcess (child parent : Scope) : Prop where
  actions : "" ∈ child.actions → "" ∈ parent.actions
  resources : "" ∈ child.resources → ∃ p ∈ parent.resources, within "" p = true

private theorem find_eq_none_of_nonEmpty {l : List String} {p : String → Bool}
    (hempty : "" ∈ l → p "" = false) (h : nonEmpty (l.find? p) = none) :
    ∀ a ∈ l, p a = false := by
  cases hf : l.find? p with
  | none => simpa only [List.find?_eq_none, Bool.not_eq_true] using hf
  | some a =>
    rw [hf, nonEmpty, Option.filter_eq_none_iff] at h
    have ha : a = "" := by simpa using h a rfl
    subst ha
    have hp := List.find?_some hf
    rw [hempty (List.mem_of_find?_eq_some hf)] at hp
    cases hp

/-- The refusals of `scopeExcess`, read as inclusions of the child in its parent. -/
theorem inclusions_of_scopeExcess {child parent : Scope}
    (hempty : child.NoEmptyExcess parent) (h : scopeExcess H child parent = none) :
    (∀ a ∈ child.actions, a ∈ parent.actions) ∧
      (∀ r ∈ child.resources, ∃ p ∈ parent.resources, within r p = true) ∧
      ∀ limit, parent.maxAmount = some limit →
        ∃ c, child.maxAmount = some c ∧ limit.lt c = false := by
  unfold scopeExcess at h
  cases ha : nonEmpty (child.actions.find? fun a => !parent.actions.contains a) with
  | some a => simp only [ha, reduceCtorEq] at h
  | none =>
    cases hr : nonEmpty (child.resources.find? fun r => !parent.resources.any (within r)) with
    | some r => simp only [ha, hr, reduceCtorEq] at h
    | none =>
      simp only [ha, hr] at h
      refine ⟨?_, ?_, ?_⟩
      · intro a hmem
        have hfind := find_eq_none_of_nonEmpty (by simpa using hempty.actions) ha a hmem
        simpa using hfind
      · intro r hmem
        have hfind := find_eq_none_of_nonEmpty (by simpa using hempty.resources) hr r hmem
        simpa using hfind
      · intro limit hlimit
        simp only [hlimit] at h
        cases hc : child.maxAmount with
        | none => simp only [hc, if_true, reduceCtorEq] at h
        | some c =>
          refine ⟨c, rfl, ?_⟩
          by_contra hlt
          rw [Bool.not_eq_false] at hlt
          simp only [hc, hlt, if_true, reduceCtorEq] at h

/-- A parent scope permits whatever a child within it permits. -/
theorem Scope.Permits.parent {child parent : Scope} {request : ChainRequest}
    (hempty : child.NoEmptyExcess parent) (hchild : child.maxAmount ≠ some .nan)
    (hparent : parent.maxAmount ≠ some .nan) (hwithin : scopeExcess H child parent = none)
    (h : child.Permits request) :
    parent.Permits request := by
  obtain ⟨hactions, hresources, hceiling⟩ := inclusions_of_scopeExcess hempty hwithin
  refine ⟨hactions _ h.action, ?_, ?_⟩
  · obtain ⟨r, hr, hcovers⟩ := h.resource
    obtain ⟨p, hp, hrp⟩ := hresources r hr
    exact ⟨p, hp, covers_of_within hrp hcovers⟩
  · intro limit hlimit
    obtain ⟨c, hc, hlt⟩ := hceiling limit hlimit
    obtain ⟨a, ha, hle⟩ := h.amount c hc
    have hcn : c ≠ .nan := fun he => hchild (he ▸ hc)
    have hln : limit ≠ .nan := fun he => hparent (he ▸ hlimit)
    exact ⟨a, ha, JsNumber.le_trans hle (JsNumber.le_of_not_lt hcn hln hlt)⟩

/-- A leaf that is not refused is for the requester, for its audience, and permits it. -/
theorem permits_of_leafRefusal {leaf : Delegation} {request : ChainRequest}
    (hleaf : leaf.scope.maxAmount ≠ some .nan) (hamount : request.amount ≠ some .nan)
    (h : leafRefusal H leaf request = none) :
    leaf.delegate = request.requester ∧
      (leaf.audience = "*" ∨ leaf.audience = request.audience) ∧
      leaf.scope.Permits request := by
  unfold leafRefusal at h
  split at h
  · cases h
  · next hdelegate =>
    split at h
    · cases h
    · next haudience =>
      split at h
      · cases h
      · next haction =>
        split at h
        · cases h
        · next hresource =>
          refine ⟨not_not.mp hdelegate, ?_, ⟨by simpa using haction, by simpa using hresource, ?_⟩⟩
          · by_contra hne
            rw [not_or] at hne
            exact haudience hne
          · intro limit hlimit
            simp only [hlimit] at h
            cases ha : request.amount with
            | none => simp only [ha, if_true, reduceCtorEq] at h
            | some a =>
              refine ⟨a, rfl, ?_⟩
              have han : a ≠ .nan := fun he => hamount (he ▸ ha)
              have hln : limit ≠ .nan := fun he => hleaf (he ▸ hlimit)
              apply JsNumber.le_of_not_lt han hln
              by_contra hlt
              rw [Bool.not_eq_false] at hlt
              simp only [ha, hlt, if_true, reduceCtorEq] at h

/-- A moment lies within a link's window, as far as its bounds are times. -/
structure Delegation.InWindow (H : Host) (d : Delegation) (at_ : JsNumber) : Prop where
  started : ∀ t, H.dateParse d.notBefore = some t → (JsNumber.ofInt t).le at_ = true
  notExpired : ∀ t, H.dateParse d.expiresAt = some t → at_.le (.ofInt t) = true

theorem LinkAccepted.inWindow {o : ChainOptions} {s : Signed Delegation}
    (h : LinkAccepted H o s) : s.body.InWindow H o.at_ := by
  have hat := PrincipalDirectory.ne_nan_of_usable h.delegator
  have hw := h.window
  unfold windowRefusal at hw
  split_ifs at hw with hrevoked hbefore hafter
  refine ⟨?_, ?_⟩
  · intro t ht
    rw [dateNumber, ht, JsNumber.ofParsed_some, Bool.not_eq_true] at hbefore
    exact JsNumber.le_of_not_lt (by simp [JsNumber.ofInt]) hat hbefore
  · intro t ht
    rw [dateNumber, ht, JsNumber.ofParsed_some, Bool.not_eq_true] at hafter
    exact JsNumber.le_of_not_lt hat (by simp [JsNumber.ofInt]) hafter

/-- What the walk says of a link and its parent, on scopes alone. -/
theorem Continues.within {o : ChainOptions} {parent child : Signed Delegation}
    (h : Continues H o parent child) :
    scopeExcess H child.body.scope parent.body.scope = none := by
  unfold Continues positionRefusal at h
  simp only at h
  split at h
  · cases h
  · cases hx : scopeExcess H child.body.scope parent.body.scope with
    | none => rfl
    | some excess => simp only [hx, reduceCtorEq] at h

/-- No privilege amplification. When a chain passes for a request, every link of it permits the
action, the resource and the amount, and the event time lies in every link's window; the leaf
is for the request's audience. Amounts are quantities, and no link lists an empty text its
parent does not cover. -/
theorem chain_authorises {chain : List (Signed Delegation)} {request : ChainRequest}
    {o : ChainOptions} {c : Check} (h : verifyDelegationChain H chain request o = .ok c)
    (hc : c.status = .pass) (hempty : chain.IsChain fun parent child =>
      child.body.scope.NoEmptyExcess parent.body.scope)
    (hceiling : ∀ s ∈ chain, s.body.scope.maxAmount ≠ some .nan) (hamount : request.amount ≠ some .nan) :
    (∀ s ∈ chain, s.body.scope.Permits request ∧ s.body.InWindow H o.at_) ∧
      ∃ leaf, chain.getLast? = some leaf ∧
        (leaf.body.audience = "*" ∨ leaf.body.audience = request.audience) := by
  have haccepted := chainAccepted_of_verifyDelegationChain h hc
  have hne := haccepted.nonempty
  have hlast := List.getLast_mem hne
  obtain ⟨_, haudience, hpermits⟩ :=
    permits_of_leafRefusal (hceiling _ hlast) hamount haccepted.leaf
  have hall : ∀ s ∈ chain, s.body.scope.Permits request := by
    have hchain : chain.IsChain fun parent child =>
        scopeExcess H child.body.scope parent.body.scope = none ∧
          child.body.scope.NoEmptyExcess parent.body.scope ∧
          parent.body.scope.maxAmount ≠ some .nan ∧ child.body.scope.maxAmount ≠ some .nan := by
      rw [List.isChain_iff_forall_rel_of_append_cons_cons] at hempty ⊢
      intro a b l₁ l₂ he
      have hcontinues := List.isChain_iff_forall_rel_of_append_cons_cons.mp haccepted.continues he
      have ha : a ∈ chain := he ▸ List.mem_append_right l₁ List.mem_cons_self
      have hb : b ∈ chain :=
        he ▸ List.mem_append_right l₁ (List.mem_cons_of_mem a List.mem_cons_self)
      exact ⟨hcontinues.within, hempty he, hceiling a ha, hceiling b hb⟩
    refine hchain.backwards_induction (fun s => s.body.scope.Permits request) chain ?_
      (fun _ => hpermits)
    rintro parent child ⟨hwithin, hab, hparent, hchild⟩ hpermitted
    exact hpermitted.parent hab hchild hparent hwithin
  refine ⟨fun s hs => ⟨hall s hs, (haccepted.links s hs).inWindow⟩, _,
    List.getLast?_eq_getLast_of_ne_nil hne, haudience⟩

/-! ## A chain on the reference host -/

open Reference DirectoryHistory

/-- A principal the issuer enrols with one key. -/
def partyRecord (principalId : String) (key : KeyPair) : PrincipalRecord :=
  { principalId
    kind := .agent
    issuer := "issuer-1"
    owner := "acme"
    basis := .issuerAttested
    createdAt := "2026-01-01T00:00:00.000Z"
    keys := [{ keyId := key.keyId, entry := key.directoryEntry }] }

/-- The key of the owner, who may originate authority. -/
def ownerKey : KeyPair := key "owner-key" "b3duZXI="

/-- The key of the agent the owner delegates to. -/
def agentKey : KeyPair := key "agent-key" "YWdlbnQ="

/-- The three principals of the chains below. -/
def partyRecords : List PrincipalRecord :=
  [partyRecord "owner" ownerKey, partyRecord "agent-1" agentKey,
    partyRecord "agent-2" (key "helper-key" "aGVscGVy")]

/-- The directory they are enrolled in. -/
def partiesDirectory : PrincipalDirectory :=
  { trust := issuerStore
    entries := .ofList (partyRecords.map fun r => (r.principalId, { record := r, events := [] })) }

/-- The directory is the one their signed records build. -/
theorem partiesDirectory_reachable :
    ∃ h, (system host issuerStore).Reachable h ∧ h.directory = partiesDirectory := by
  let inputs := partyRecords.map fun r => DirectoryInput.enroll (clock 0)
    (signed "cool.principal.v1" r issuerKey)
  have hr := reachable_foldl host issuerStore inputs
  refine ⟨_, hr, PrincipalDirectory.ext (issued_of_reachable hr).store (OrderedMap.ext ?_)⟩
  decide +kernel

/-- A delegation of payments signed by its delegator. -/
def grant (delegationId delegator delegate audience : String) (parent : Option String)
    (key : KeyPair) : Signed Delegation :=
  signed "cool.delegation.v1"
    { delegationId, delegator, delegate, audience, parent
      scope := { actions := ["pay"], resources := ["invoice/*"] }
      notBefore := "2026-01-01T00:00:00.000Z"
      expiresAt := "2026-01-02T00:00:00.000Z"
      nonce := "n-" ++ delegationId
      issuedAt := "2026-01-01T00:00:01.000Z" } key

/-- A chain whose root is for billing and whose leaf is for another audience. -/
def crossChain : List (Signed Delegation) :=
  [grant "d-1" "owner" "agent-1" "billing" none ownerKey,
    grant "d-2" "agent-1" "agent-2" "crm" (some "d-1") agentKey]

/-- A request of the leaf's delegate for the leaf's audience. -/
def crossRequest : ChainRequest :=
  { requester := "agent-2", action := "pay", resource := "invoice/7", audience := "crm" }

/-- The verifier of the chain, a minute into the year. -/
def crossOptions : ChainOptions :=
  { directory := partiesDirectory, roots := ["owner"], at_ := clock 60000 }

private theorem grant_scope (delegationId delegator delegate audience : String)
    (parent : Option String) (key : KeyPair) :
    (grant delegationId delegator delegate audience parent key).body.scope =
      { actions := ["pay"], resources := ["invoice/*"] } := by
  rw [grant, signed_body]

private theorem crossChain_scope :
    ∀ s ∈ crossChain, s.body.scope = { actions := ["pay"], resources := ["invoice/*"] } := by
  intro s hs
  simp only [crossChain, List.mem_cons, List.not_mem_nil, or_false] at hs
  rcases hs with hs | hs <;> rw [hs, grant_scope]

private theorem crossChain_passes :
    ∃ c, verifyDelegationChain host crossChain crossRequest crossOptions = .ok c ∧
      c.status = .pass :=
  ok_of_map_eq (by decide +kernel)

/-- The general result at work: both links of the chain permit the payment, in time. -/
theorem chain_authorises_cross :
    (∀ s ∈ crossChain, s.body.scope.Permits crossRequest ∧
        s.body.InWindow host crossOptions.at_) ∧
      ∃ leaf, crossChain.getLast? = some leaf ∧
        (leaf.body.audience = "*" ∨ leaf.body.audience = crossRequest.audience) := by
  obtain ⟨c, hv, hc⟩ := crossChain_passes
  refine chain_authorises hv hc ?_ ?_ (by simp [crossRequest])
  · rw [List.isChain_iff_forall_rel_of_append_cons_cons]
    intro a b l₁ l₂ he
    have ha := crossChain_scope a (he ▸ List.mem_append_right l₁ List.mem_cons_self)
    have hb := crossChain_scope b
      (he ▸ List.mem_append_right l₁ (List.mem_cons_of_mem a List.mem_cons_self))
    rw [ha, hb]
    exact ⟨id, fun h => absurd h (by decide)⟩
  · intro s hs
    rw [crossChain_scope s hs]
    simp only [ne_eq, reduceCtorEq, not_false_eq_true]

/-- The audience does not shrink along a chain: this chain passes for an audience that its
root does not name. -/
theorem chain_crosses_audiences :
    (∃ c, verifyDelegationChain host crossChain crossRequest crossOptions = .ok c ∧
        c.status = .pass) ∧
      ∃ s ∈ crossChain, s.body.audience ≠ "*" ∧ s.body.audience ≠ crossRequest.audience := by
  refine ⟨crossChain_passes, grant "d-1" "owner" "agent-1" "billing" none ownerKey,
    List.mem_cons_self, ?_⟩
  rw [grant, signed_body]
  exact ⟨by decide, by decide⟩

end CoolSdk
