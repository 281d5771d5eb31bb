import CoolSdk.Authz.Principal
import Mathlib.Data.List.Chain

/-!
# Delegation

Scoped, expiring, revocable authority from one principal to another. A chain is walked
from its root: each link is signed by a key bound to its delegator at issue time, both
parties are usable and the link is in its window at the event time, and every later
link continues the one before it within its scope. The leaf is then held against the
request.
-/

namespace CoolSdk

/-- What a delegation allows. -/
structure Scope where
  actions : List String
  /-- Exact ids, or prefixes ending in `*`. -/
  resources : List String
  maxAmount : Option JsNumber := none
  deriving DecidableEq, Repr

/-- The body of a delegation. -/
structure Delegation where
  schema : String := "cool.delegation.v1"
  delegationId : String
  delegator : String
  delegate : String
  scope : Scope
  audience : String
  notBefore : String
  expiresAt : String
  nonce : String
  parent : Option String := none
  issuedAt : String
  deriving DecidableEq, Repr

instance : ToJs Scope where
  toJs s := .object [("actions", .array (s.actions.map .str)),
    ("resources", .array (s.resources.map .str)), ("max_amount", optional .num s.maxAmount)]

instance : ToJs Delegation where
  toJs d := .object [("schema", .str d.schema), ("delegation_id", .str d.delegationId),
    ("delegator", .str d.delegator), ("delegate", .str d.delegate), ("scope", toJs d.scope),
    ("audience", .str d.audience), ("not_before", .str d.notBefore),
    ("expires_at", .str d.expiresAt), ("nonce", .str d.nonce),
    ("parent", optional .str d.parent), ("issued_at", .str d.issuedAt)]

/-- What a chain is asked to authorise. -/
structure ChainRequest where
  requester : String
  action : String
  resource : String
  audience : String
  amount : Option JsNumber := none

/-- The verifier's side of a chain check. -/
structure ChainOptions where
  directory : PrincipalDirectory
  /-- Principals allowed to originate authority. -/
  roots : List String
  /-- The event time the chain is judged at. -/
  at_ : JsNumber
  revoked : Option (List String) := none
  maxDepth : Option JsNumber := none

section

variable (H : Host)

/-- Why a child scope is not within its parent's, or nothing if it is. The excess item is
tested for truth, so an empty text counts as no excess. -/
def scopeExcess (child parent : Scope) : Option String :=
  match nonEmpty (child.actions.find? fun a => !parent.actions.contains a) with
  | some extraAction => some ("action " ++ extraAction ++ " is not in the parent scope")
  | none =>
    match nonEmpty (child.resources.find? fun r => !parent.resources.any (within r)) with
    | some extraResource =>
      some ("resource " ++ extraResource ++ " is not covered by the parent scope")
    | none =>
      match parent.maxAmount with
      | none => none
      | some limit =>
        if (match child.maxAmount with | none => true | some c => limit.lt c) then
          some ("amount ceiling " ++ child.maxAmount.elim "unbounded" H.numberText ++
            " exceeds the parent's " ++ H.numberText limit)
        else none

/-- The first of some parties that is not usable at its moment. -/
def partiesRefusal (dir : PrincipalDirectory) (ref : String) :
    List (String × JsNumber) → Except String (Option Check)
  | [] => .ok none
  | (who, moment) :: rest => do
    let c ← dir.check H who moment none
    if c.status ≠ .pass then .ok (some (check .fail c.reason (ref ++ ": " ++ c.detail)))
    else partiesRefusal dir ref rest

/-- The refusals that depend on the link, the moment and the revocations alone. -/
def windowRefusal (o : ChainOptions) (d : Delegation) : Option Check :=
  let ref := "delegation " ++ d.delegationId
  if o.revoked.any fun ids => ids.contains d.delegationId then
    some (check .fail "delegation_revoked" (ref ++ " is revoked"))
  else if o.at_.lt (dateNumber H d.notBefore) then
    some (check .fail "delegation_not_yet_valid" (ref ++ " is valid from " ++ d.notBefore))
  else if (dateNumber H d.expiresAt).lt o.at_ then
    some (check .fail "delegation_expired" (ref ++ " expired " ++ d.expiresAt))
  else none

/-- Whether a link may stand where it does: first in the chain, or after a parent. -/
def positionRefusal (o : ChainOptions) (prev : Option Delegation) (d : Delegation) :
    Option Check :=
  let ref := "delegation " ++ d.delegationId
  match prev with
  | none =>
    if (nonEmpty d.parent).isSome then
      some (check .fail "broken_chain" (ref ++ " claims a parent but is presented as the root"))
    else if !o.roots.contains d.delegator then
      some (check .fail "untrusted_root" (d.delegator ++ " may not originate authority"))
    else none
  | some p =>
    if d.parent ≠ some p.delegationId ∨ d.delegator ≠ p.delegate then
      some (check .fail "broken_chain" (ref ++ " does not continue " ++ p.delegationId))
    else
      match scopeExcess H d.scope p.scope with
      | some excess => some (check .fail "privilege_amplification" (ref ++ ": " ++ excess))
      | none =>
        if (dateNumber H p.expiresAt).lt (dateNumber H d.expiresAt) then
          some (check .fail "privilege_amplification" (ref ++ " outlives its parent"))
        else none

/-- One iteration of the walk: why a link is refused, if it is. -/
def linkRefusal (o : ChainOptions) (seenIds seenPrincipals : List String)
    (prev : Option Delegation) (s : Signed Delegation) : Except String (Option Check) :=
  let d := s.body
  let ref := "delegation " ++ d.delegationId
  if seenIds.contains d.delegationId || seenPrincipals.contains d.delegate then
    .ok (some (check .fail "delegation_cycle" (ref ++ " repeats a link or principal")))
  else
    let issuedAt := dateNumber H d.issuedAt
    match o.directory.keyAt H d.delegator s.signature.keyId issuedAt with
    | none => .ok (some (check .fail "key_not_bound" (ref ++ ": key " ++ s.signature.keyId ++
        " is not bound to " ++ d.delegator ++ " at issue time")))
    | some key => do
      let v ← verifyIntegrity H "cool.delegation.v1" s (some key)
      if v.integrity.status ≠ .pass then .ok (some v.integrity)
      else if v.signature.status ≠ .pass then
        .ok (some (check .fail v.signature.reason (ref ++ ": " ++ v.signature.detail)))
      else do
        let party ← partiesRefusal H o.directory ref
          [(d.delegator, issuedAt), (d.delegator, o.at_), (d.delegate, o.at_)]
        .ok (party.or ((windowRefusal H o d).or (positionRefusal H o prev d)))

/-- The walk from the root: the first refusal, if any. -/
def chainRefusal (o : ChainOptions) :
    List String → List String → Option Delegation → List (Signed Delegation) →
      Except String (Option Check)
  | _, _, _, [] => .ok none
  | seenIds, seenPrincipals, prev, s :: rest => do
    let refusal ← linkRefusal H o seenIds seenPrincipals prev s
    match refusal with
    | some c => .ok (some c)
    | none =>
      chainRefusal o (s.body.delegationId :: seenIds) (s.body.delegate :: seenPrincipals)
        (some s.body) rest

/-- Why the leaf does not authorise the request, if it does not. -/
def leafRefusal (leaf : Delegation) (request : ChainRequest) : Option Check :=
  if leaf.delegate ≠ request.requester then
    some (check .fail "wrong_delegate"
      ("the chain authorises " ++ leaf.delegate ++ ", not " ++ request.requester))
  else if leaf.audience ≠ "*" ∧ leaf.audience ≠ request.audience then
    some (check .fail "wrong_audience"
      ("the chain is for " ++ leaf.audience ++ ", not " ++ request.audience))
  else if !leaf.scope.actions.contains request.action then
    some (check .fail "scope_exceeded" ("action " ++ request.action ++ " is not delegated"))
  else if !leaf.scope.resources.any fun p => covers p request.resource then
    some (check .fail "scope_exceeded" ("resource " ++ request.resource ++ " is not delegated"))
  else
    match leaf.scope.maxAmount with
    | none => none
    | some limit =>
      if (match request.amount with | none => true | some a => limit.lt a) then
        some (check .fail "scope_exceeded" ("amount " ++
          request.amount.elim "unstated" H.numberText ++ " exceeds the delegated ceiling " ++
          H.numberText limit))
      else none

/-- Verify a chain, root first, for one concrete request. -/
def verifyDelegationChain (chain : List (Signed Delegation)) (request : ChainRequest)
    (o : ChainOptions) : Except String Check :=
  match chain with
  | [] => .ok (check .fail "no_delegation" "no delegation chain was presented")
  | root :: rest =>
    let maxDepth := o.maxDepth.getD (.ofInt 4)
    let depth := (root :: rest).length
    if maxDepth.lt (.ofInt depth) then
      .ok (check .fail "delegation_too_deep" ("chain depth " ++ toString depth ++ " exceeds " ++
        H.numberText maxDepth))
    else do
      let refusal ← chainRefusal H o [] [root.body.delegator] none (root :: rest)
      match refusal with
      | some c => .ok c
      | none =>
        let leaf := ((root :: rest).getLast (List.cons_ne_nil root rest)).body
        .ok ((leafRefusal H leaf request).getD (check .pass "chain_valid"
          (toString depth ++ "-link chain from " ++ root.body.delegator ++ " authorises " ++
            request.requester ++ " to " ++ request.action ++ " " ++ request.resource)))

end

/-! ## What an accepted chain establishes -/

variable {H : Host}

/-- What the walk establishes of one link wherever it stands. -/
structure LinkAccepted (H : Host) (o : ChainOptions) (s : Signed Delegation) : Prop where
  /-- Signed by a key bound to the delegator at issue time. -/
  signed : ∃ key, o.directory.keyAt H s.body.delegator s.signature.keyId
      (dateNumber H s.body.issuedAt) = some key ∧ SignedUnder H "cool.delegation.v1" s key
  delegatorAtIssue : o.directory.Usable H s.body.delegator (dateNumber H s.body.issuedAt)
  delegator : o.directory.Usable H s.body.delegator o.at_
  delegate : o.directory.Usable H s.body.delegate o.at_
  window : windowRefusal H o s.body = none

private theorem usable_of_partiesRefusal {dir : PrincipalDirectory} {ref : String}
    {parties : List (String × JsNumber)} (h : partiesRefusal H dir ref parties = .ok none) :
    ∀ party ∈ parties, dir.Usable H party.1 party.2 := by
  induction parties with
  | nil =>
    intro party hmem
    cases hmem
  | cons head rest ih =>
    unfold partiesRefusal at h
    obtain ⟨c, hc, h⟩ := bind_eq_ok.mp h
    by_cases hs : c.status = .pass
    · simp only [hs, ne_eq, not_true_eq_false, if_false] at h
      intro party hmem
      rcases List.mem_cons.mp hmem with rfl | hmem
      · exact ⟨c, hc, hs⟩
      · exact ih h party hmem
    · simp only [hs, ne_eq, not_false_eq_true, if_true] at h
      cases h

/-- A link that is not refused is accepted, and may stand where it does. -/
theorem linkAccepted_of_linkRefusal {o : ChainOptions} {seenIds seenPrincipals : List String}
    {prev : Option Delegation} {s : Signed Delegation}
    (h : linkRefusal H o seenIds seenPrincipals prev s = .ok none) :
    LinkAccepted H o s ∧ positionRefusal H o prev s.body = none := by
  unfold linkRefusal at h
  simp only at h
  split at h
  · cases h
  · cases hk : o.directory.keyAt H s.body.delegator s.signature.keyId
        (dateNumber H s.body.issuedAt) with
    | none =>
      simp only [hk] at h
      cases h
    | some key =>
      simp only [hk] at h
      obtain ⟨v, hv, h⟩ := bind_eq_ok.mp h
      by_cases hi : v.integrity.status = .pass
      · by_cases hs : v.signature.status = .pass
        · simp only [hi, hs, ne_eq, not_true_eq_false, if_false] at h
          obtain ⟨party, hparty, h⟩ := bind_eq_ok.mp h
          cases party with
          | some c => cases h
          | none =>
            have hsome := Except.ok.inj h
            simp only [Option.none_or, Option.or_eq_none_iff] at hsome
            have husable := usable_of_partiesRefusal hparty
            simp only [List.mem_cons, List.not_mem_nil, or_false, forall_eq_or_imp,
              forall_eq] at husable
            obtain ⟨hissue, hdelegator, hdelegate⟩ := husable
            refine ⟨⟨⟨key, hk, ?_⟩, hissue, hdelegator, hdelegate, hsome.1⟩, hsome.2⟩
            simpa only [Option.getD_some] using signedUnder_of_verifyIntegrity H hv hs
        · simp only [hi, hs, ne_eq, not_true_eq_false, not_false_eq_true, if_false,
            if_true] at h
          cases h
      · simp only [hi, ne_eq, not_false_eq_true, if_true] at h
        cases h

/-- How a link continues the one before it. -/
def Continues (H : Host) (o : ChainOptions) (parent child : Signed Delegation) : Prop :=
  positionRefusal H o (some parent.body) child.body = none

/-- A walk without refusal accepts every link, and each link continues the one before. -/
theorem accepted_of_chainRefusal {o : ChainOptions} {chain : List (Signed Delegation)}
    {seenIds seenPrincipals : List String} {prev : Option Delegation}
    (h : chainRefusal H o seenIds seenPrincipals prev chain = .ok none) :
    (∀ s ∈ chain, LinkAccepted H o s) ∧ chain.IsChain (Continues H o) ∧
      ∀ s, chain.head? = some s → positionRefusal H o prev s.body = none := by
  induction chain generalizing seenIds seenPrincipals prev with
  | nil =>
    refine ⟨?_, List.IsChain.nil, ?_⟩
    · intro s hmem
      cases hmem
    · intro s hhead
      cases hhead
  | cons s rest ih =>
    unfold chainRefusal at h
    obtain ⟨refusal, hlink, h⟩ := bind_eq_ok.mp h
    cases refusal with
    | some c => cases h
    | none =>
      obtain ⟨haccepted, hposition⟩ := linkAccepted_of_linkRefusal hlink
      obtain ⟨hall, hchain, hhead⟩ := ih h
      refine ⟨?_, ?_, ?_⟩
      · intro s' hmem
        rcases List.mem_cons.mp hmem with rfl | hmem
        · exact haccepted
        · exact hall s' hmem
      · cases rest with
        | nil => exact List.IsChain.singleton s
        | cons next rest => exact List.IsChain.cons_cons (hhead next rfl) hchain
      · intro s' hs'
        cases hs'
        exact hposition

private theorem fail_of_partiesRefusal {dir : PrincipalDirectory} {ref : String}
    {parties : List (String × JsNumber)} {c : Check}
    (h : partiesRefusal H dir ref parties = .ok (some c)) : c.status = .fail := by
  induction parties with
  | nil => cases h
  | cons head rest ih =>
    unfold partiesRefusal at h
    obtain ⟨c', _, h⟩ := bind_eq_ok.mp h
    by_cases hs : c'.status = .pass
    · simp only [hs, ne_eq, not_true_eq_false, if_false] at h
      exact ih h
    · simp only [hs, ne_eq, not_false_eq_true, if_true] at h
      cases h
      rfl

private theorem fail_of_windowRefusal {o : ChainOptions} {d : Delegation} {c : Check}
    (h : windowRefusal H o d = some c) : c.status = .fail := by
  unfold windowRefusal at h
  simp only at h
  split_ifs at h <;> exact Option.some.inj h ▸ rfl

private theorem fail_of_positionRefusal {o : ChainOptions} {prev : Option Delegation}
    {d : Delegation} {c : Check} (h : positionRefusal H o prev d = some c) : c.status = .fail := by
  unfold positionRefusal at h
  cases prev with
  | none =>
    simp only at h
    split_ifs at h <;> exact Option.some.inj h ▸ rfl
  | some p =>
    simp only at h
    split at h
    · exact Option.some.inj h ▸ rfl
    · split at h
      · exact Option.some.inj h ▸ rfl
      · split_ifs at h
        exact Option.some.inj h ▸ rfl

private theorem fail_of_linkRefusal {o : ChainOptions} {seenIds seenPrincipals : List String}
    {prev : Option Delegation} {s : Signed Delegation} {c : Check}
    (h : linkRefusal H o seenIds seenPrincipals prev s = .ok (some c)) : c.status = .fail := by
  unfold linkRefusal at h
  simp only at h
  split at h
  · exact Option.some.inj (Except.ok.inj h) ▸ rfl
  · split at h
    · exact Option.some.inj (Except.ok.inj h) ▸ rfl
    · obtain ⟨v, hv, h⟩ := bind_eq_ok.mp h
      split at h
      · next hi =>
        rw [integrity_of_verifyIntegrity H hv] at hi h
        exact Option.some.inj (Except.ok.inj h) ▸ (integrityCheck_status H _ s).resolve_left hi
      · split at h
        · exact Option.some.inj (Except.ok.inj h) ▸ rfl
        · obtain ⟨party, hparty, h⟩ := bind_eq_ok.mp h
          have hsome := Except.ok.inj h
          rcases Option.or_eq_some_iff.mp hsome with rfl | ⟨_, hrest⟩
          · exact fail_of_partiesRefusal hparty
          · rcases Option.or_eq_some_iff.mp hrest with hwindow | ⟨_, hposition⟩
            · exact fail_of_windowRefusal hwindow
            · exact fail_of_positionRefusal hposition

private theorem fail_of_chainRefusal {o : ChainOptions} {chain : List (Signed Delegation)}
    {seenIds seenPrincipals : List String} {prev : Option Delegation} {c : Check}
    (h : chainRefusal H o seenIds seenPrincipals prev chain = .ok (some c)) :
    c.status = .fail := by
  induction chain generalizing seenIds seenPrincipals prev with
  | nil => cases h
  | cons s rest ih =>
    unfold chainRefusal at h
    obtain ⟨refusal, hlink, h⟩ := bind_eq_ok.mp h
    cases refusal with
    | some c' =>
      cases h
      exact fail_of_linkRefusal hlink
    | none => exact ih h

private theorem fail_of_leafRefusal {leaf : Delegation} {request : ChainRequest} {c : Check}
    (h : leafRefusal H leaf request = some c) : c.status = .fail := by
  unfold leafRefusal at h
  split at h
  · exact Option.some.inj h ▸ rfl
  · split at h
    · exact Option.some.inj h ▸ rfl
    · split at h
      · exact Option.some.inj h ▸ rfl
      · split at h
        · exact Option.some.inj h ▸ rfl
        · split at h
          · cases h
          · split_ifs at h
            exact Option.some.inj h ▸ rfl

/-- A verdict on a chain passes or fails. -/
theorem verifyDelegationChain_status {chain : List (Signed Delegation)} {request : ChainRequest}
    {o : ChainOptions} {c : Check} (h : verifyDelegationChain H chain request o = .ok c) :
    c.status = .pass ∨ c.status = .fail := by
  unfold verifyDelegationChain at h
  cases chain with
  | nil => exact Or.inr (Except.ok.inj h ▸ rfl)
  | cons root rest =>
    simp only at h
    split at h
    · exact Or.inr (Except.ok.inj h ▸ rfl)
    · obtain ⟨refusal, hwalk, h⟩ := bind_eq_ok.mp h
      cases refusal with
      | some c' =>
        cases h
        exact Or.inr (fail_of_chainRefusal hwalk)
      | none =>
        cases hleaf : leafRefusal H ((root :: rest).getLast (List.cons_ne_nil root rest)).body
            request with
        | none =>
          simp only [hleaf, Option.getD_none] at h
          exact Or.inl (Except.ok.inj h ▸ rfl)
        | some refusal =>
          simp only [hleaf, Option.getD_some] at h
          cases h
          exact Or.inr (fail_of_leafRefusal hleaf)

/-- What a passing verdict on a chain establishes. -/
structure ChainAccepted (H : Host) (chain : List (Signed Delegation)) (request : ChainRequest)
    (o : ChainOptions) : Prop where
  nonempty : chain ≠ []
  links : ∀ s ∈ chain, LinkAccepted H o s
  continues : chain.IsChain (Continues H o)
  leaf : leafRefusal H (chain.getLast nonempty).body request = none
  /-- The first link originates the authority. -/
  root : ∀ s, chain.head? = some s → positionRefusal H o none s.body = none

/-- A chain passes only when every link is accepted and the leaf authorises the request. -/
theorem chainAccepted_of_verifyDelegationChain {chain : List (Signed Delegation)}
    {request : ChainRequest} {o : ChainOptions} {c : Check}
    (h : verifyDelegationChain H chain request o = .ok c) (hc : c.status = .pass) :
    ChainAccepted H chain request o := by
  unfold verifyDelegationChain at h
  cases chain with
  | nil =>
    cases h
    cases hc
  | cons root rest =>
    simp only at h
    split at h
    · cases h
      cases hc
    · obtain ⟨refusal, hwalk, h⟩ := bind_eq_ok.mp h
      cases refusal with
      | some c' =>
        cases h
        rw [fail_of_chainRefusal hwalk] at hc
        cases hc
      | none =>
        obtain ⟨hlinks, hchain, hroot⟩ := accepted_of_chainRefusal hwalk
        refine ⟨List.cons_ne_nil root rest, hlinks, hchain, ?_, hroot⟩
        cases hleaf : leafRefusal H ((root :: rest).getLast (List.cons_ne_nil root rest)).body
            request with
        | none => rfl
        | some refusal =>
          simp only [hleaf, Option.getD_some] at h
          cases h
          have hfail := fail_of_leafRefusal hleaf
          rw [hc] at hfail
          cases hfail

end CoolSdk
