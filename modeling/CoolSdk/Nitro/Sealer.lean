import CoolSdk.Core.Transition
import CoolSdk.Phala.NeverThrows
import CoolSdk.Platform.Signing

/-!
# The receipt sealer

The sealer signs events as receipts with consecutive numbers in the one epoch that a log
assigned to its key, and answers a retry with the receipt it has already issued. A number is
taken before the event is validated and signed, so an event that fails there loses it.
-/

namespace CoolSdk

/-- The part of a log's epoch registration that the sealer needs. -/
structure EpochRegistration where
  epoch : JsNumber
  keyId : String

/-- A log's signed epoch registration. -/
structure EpochAssignment where
  registration : EpochRegistration

/-- An event to seal: what an envelope is created from, with the id of the event. -/
structure SealInput where
  input : EnvelopeInput
  eventId : String
  named : input.eventId = some eventId := by rfl

/-- A sealer with the receipts it has issued. -/
structure NitroReceiptSealer where
  key : KeyPair
  registry : PayloadRegistry
  attestation : Bytes
  issued : OrderedMap String SignedEnvelope := .empty
  epoch : Option JsNumber := none
  next : Nat := 0

namespace NitroReceiptSealer

variable (H : Host)

/-- Accept the log's epoch assignment for this key. -/
def acceptEpoch (s : NitroReceiptSealer) (signed : EpochAssignment) :
    Except String NitroReceiptSealer :=
  if signed.registration.keyId ≠ s.key.keyId then .error "registration is for a different key"
  else if s.epoch.any fun epoch => !epoch.strictEq signed.registration.epoch then
    .error "this key already has an epoch"
  else .ok { s with epoch := some signed.registration.epoch }

/-- The number after the next one. A double counts up to 2^53 and stays there. -/
def following (s : NitroReceiptSealer) : Nat := if s.next < 2 ^ 53 then s.next + 1 else s.next

/-- The input with the number it is sealed under and the sealer's attestation. -/
def sequenced (s : NitroReceiptSealer) (input : EnvelopeInput) (epoch : JsNumber) :
    EnvelopeInput :=
  { input with
    sequence := some { epoch, number := .ofInt s.next }
    attestation := some { document := s.attestation } }

/-- The receipt for an event under the next number. -/
def receipt (s : NitroReceiptSealer) (event : SealInput) (epoch : JsNumber)
    (sources : CreationSources) : Except String SignedEnvelope := do
  let core ← createEnvelope H (s.sequenced event.input epoch) s.registry sources
  signEnvelope H core [localSigner H s.key] (some s.attestation)

/-- `seal`: requires an epoch and is idempotent by event id. The number is gone whether or not
the event can be sealed. -/
def sealEvent (s : NitroReceiptSealer) (event : SealInput) (sources : CreationSources) :
    Except String SignedEnvelope × NitroReceiptSealer :=
  match s.epoch with
  | none => (.error "no epoch assigned yet: register with the log first", s)
  | some epoch =>
    match s.issued.get event.eventId with
    | some prior => (.ok prior, s)
    | none =>
      match s.receipt H event epoch sources with
      | .error e => (.error e, { s with next := s.following })
      | .ok env =>
        (.ok env, { s with next := s.following, issued := s.issued.set event.eventId env })

end NitroReceiptSealer

/-! ## Runs of calls -/

/-- A call of the sealer, with what it takes from its surroundings. -/
inductive SealerCall
  | acceptEpoch (signed : EpochAssignment)
  | sealEvent (event : SealInput) (sources : CreationSources)

/-- What a call answers, where it returns an envelope, and the sealer after it. -/
def NitroReceiptSealer.call (H : Host) (s : NitroReceiptSealer) :
    SealerCall → Except String (Option SignedEnvelope) × NitroReceiptSealer
  | .acceptEpoch signed =>
    match s.acceptEpoch signed with
    | .ok s' => (.ok none, s')
    | .error e => (.error e, s)
  | .sealEvent event sources =>
    ((s.sealEvent H event sources).1.map some, (s.sealEvent H event sources).2)

/-- One call of a run. -/
structure SealerStep where
  before : NitroReceiptSealer
  made : SealerCall
  answer : Except String (Option SignedEnvelope)
  after : NitroReceiptSealer

/-- The envelope a call returned, under the id of its event. -/
def SealerStep.returned (step : SealerStep) : Option (String × SignedEnvelope) :=
  match step.made, step.answer with
  | .sealEvent event _, .ok (some env) => some (event.eventId, env)
  | _, _ => none

/-- A sealer with all that was asked of it. -/
structure SealerHistory where
  sealer : NitroReceiptSealer
  steps : List SealerStep := []

namespace SealerHistory

/-- The history with a call and what came of it. -/
def record (w : SealerHistory) (c : SealerCall)
    (outcome : Except String (Option SignedEnvelope) × NitroReceiptSealer) : SealerHistory :=
  { sealer := outcome.2
    steps := w.steps ++
      [{ before := w.sealer, made := c, answer := outcome.1, after := outcome.2 }] }

/-- The envelopes returned, each under the id of its event. -/
def returned (w : SealerHistory) : List (String × SignedEnvelope) :=
  w.steps.filterMap SealerStep.returned

/-- The events sealed, in the order in which they were first issued. -/
def firstIssued (w : SealerHistory) : List String := (w.returned.map Prod.fst).eraseDups

/-- An envelope's number is the position of its event among those issued, its epoch is the one
accepted, a retry returns the same envelope, and what throws changes nothing. -/
structure Integrity (w : SealerHistory) : Prop where
  numbered : ∀ id env, (id, env) ∈ w.returned →
    env.core.sequence.map Sequence.number = some (.ofInt (w.firstIssued.idxOf id))
  epoch : ∀ id env, (id, env) ∈ w.returned →
    env.core.sequence.map (fun s => s.epoch.mapKey) = w.sealer.epoch.map JsNumber.mapKey
  idempotent : ∀ id env env', (id, env) ∈ w.returned → (id, env') ∈ w.returned → env = env'
  atomic : ∀ step ∈ w.steps, (∃ e, step.answer = .error e) → step.after = step.before

end SealerHistory

/-- A sealer from its start, under any calls. -/
def sealerRuns (H : Host) (key : KeyPair) (registry : PayloadRegistry) (attestation : Bytes) :
    TransitionSystem SealerHistory SealerCall where
  init w := w = { sealer := { key, registry, attestation } }
  step w c w' := w' = w.record c (w.sealer.call H c)

/-! ## What a call does -/

/-- A core under the sealer's next number and its attestation. -/
def NitroReceiptSealer.numbered (H : Host) (s : NitroReceiptSealer) (epoch : JsNumber)
    (core : EnvelopeCore) : EnvelopeCore :=
  { core with
    sequence := some { epoch, number := .ofInt s.next }
    attestationRef := some (toHex (H.sha256 s.attestation)) }

/-- The event can be sealed under the next number: it is one that an envelope is created from,
the core has canonical bytes, and the count is one a double reaches. -/
structure NitroReceiptSealer.Takes (H : Host) (s : NitroReceiptSealer) (event : SealInput)
    (epoch : JsNumber) (sources : CreationSources) : Prop where
  accepted : ∃ core, createEnvelope H event.input s.registry sources = .ok core
  encodes : ∀ core, createEnvelope H event.input s.registry sources = .ok core →
    ∃ bytes, canonicalize H (s.numbered H epoch core) = .ok bytes
  counts : s.issued.entries.length ≤ 2 ^ 53

/-- An event that is new to a sealer with an epoch can be sealed. -/
def SealerCall.Sealable (H : Host) (s : NitroReceiptSealer) : SealerCall → Prop
  | .acceptEpoch _ => True
  | .sealEvent event sources => ∀ epoch, s.epoch = some epoch → s.issued.get event.eventId = none →
    s.Takes H event epoch sources

section

variable {H : Host} {s : NitroReceiptSealer}

/-- Numbering an input changes nothing about whether an envelope is created from it. -/
theorem createEnvelope_sequenced (s : NitroReceiptSealer) (input : EnvelopeInput)
    (epoch : JsNumber) (registry : PayloadRegistry) (sources : CreationSources) :
    createEnvelope H (s.sequenced input epoch) registry sources =
      (createEnvelope H input registry sources).map (s.numbered H epoch) := by
  have hid : (s.sequenced input epoch).schemaId registry = input.schemaId registry := rfl
  have htimes : (s.sequenced input epoch).times = input.times := rfl
  have hrefs : (s.sequenced input epoch).refs = input.refs := rfl
  have htime : (s.sequenced input epoch).observedTime = input.observedTime := rfl
  unfold createEnvelope
  rw [hid, htimes, hrefs, htime]
  cases input.schemaId registry with
  | none => rfl
  | some schemaId =>
    change (if (registry.get schemaId).all (fun schema =>
      decide (schema.eventType ≠ input.eventType)) = true then _ else _) = _
    dsimp only [NitroReceiptSealer.sequenced]
    by_cases hdescribes :
        (registry.get schemaId).all (fun schema => decide (schema.eventType ≠ input.eventType))
    · rw [if_pos hdescribes, if_pos hdescribes]
      rfl
    · rw [if_neg hdescribes, if_neg hdescribes]
      by_cases hproblems : registry.validate H schemaId (.object input.payload) ≠ []
      · rw [if_pos hproblems, if_pos hproblems]
        rfl
      · rw [if_neg hproblems, if_neg hproblems]
        split
        · rfl
        · rfl
        · cases input.observedTime sources.now <;> rfl

/-- The receipt for an event that can be sealed carries the next number. -/
theorem exists_receipt (hsha : ∀ data, (H.sha256 data).length = 32) {event : SealInput}
    {epoch : JsNumber} {sources : CreationSources} (h : s.Takes H event epoch sources) :
    ∃ env, s.receipt H event epoch sources = .ok env ∧
      env.core.sequence = some { epoch, number := .ofInt s.next } := by
  obtain ⟨core, hcore⟩ := h.accepted
  obtain ⟨bytes, hbytes⟩ := h.encodes core hcore
  have hreferenced : ∀ document ∈ some s.attestation,
      referenced H (s.numbered H epoch core) document := by
    rintro document hdocument
    cases hdocument
    rfl
  obtain ⟨env, message, henv, hsigned, _⟩ := exists_signEnvelope_attested hsha hbytes
    (List.cons_ne_nil (localSigner H s.key) []) hreferenced
  rw [NitroReceiptSealer.receipt, createEnvelope_sequenced, hcore]
  exact ⟨env, henv, by rw [hsigned.core]; rfl⟩

/-- What a call that meets its condition does to a sealer. -/
inductive SealerCall.Does (H : Host) (s : NitroReceiptSealer) :
    SealerCall → Except String (Option SignedEnvelope) × NitroReceiptSealer → Prop
  | refused {c e} : Does H s c (.error e, s)
  | assigned {signed} : (∀ epoch, s.epoch = some epoch →
      epoch.mapKey = signed.registration.epoch.mapKey) →
      Does H s (.acceptEpoch signed) (.ok none, { s with epoch := some signed.registration.epoch })
  | retried {event sources env} : s.issued.get event.eventId = some env →
      Does H s (.sealEvent event sources) (.ok (some env), s)
  | issued {event sources epoch env} : s.epoch = some epoch →
      s.issued.get event.eventId = none → s.issued.entries.length ≤ 2 ^ 53 →
      env.core.sequence = some { epoch, number := .ofInt s.next } →
      Does H s (.sealEvent event sources) (.ok (some env),
        { s with next := s.following, issued := s.issued.set event.eventId env })

private theorem mapKey_of_strictEq {a b : JsNumber} (h : a.strictEq b = true) :
    a.mapKey = b.mapKey := by
  cases a <;> cases b <;> simp_all [JsNumber.strictEq, JsNumber.position?, JsNumber.mapKey]

/-- A call that meets its condition takes a number exactly where it issues an envelope. -/
theorem SealerCall.Sealable.does (hsha : ∀ data, (H.sha256 data).length = 32) {c : SealerCall}
    (h : c.Sealable H s) : c.Does H s (s.call H c) := by
  cases c with
  | acceptEpoch signed =>
    rw [NitroReceiptSealer.call, NitroReceiptSealer.acceptEpoch]
    split_ifs with hkey hother
    · exact .refused
    · exact .refused
    · refine .assigned fun epoch hepoch => mapKey_of_strictEq ?_
      simpa [hepoch] using hother
  | sealEvent event sources =>
    rw [NitroReceiptSealer.call, NitroReceiptSealer.sealEvent]
    cases hepoch : s.epoch with
    | none => exact .refused
    | some epoch =>
      cases hprior : s.issued.get event.eventId with
      | some prior => exact .retried hprior
      | none =>
        have htakes := h epoch hepoch hprior
        obtain ⟨env, henv, hsequence⟩ := exists_receipt hsha htakes
        simp only [henv]
        have hissued : Does H s (.sealEvent event sources) (.ok (some env), _) :=
          .issued hepoch hprior htakes.counts hsequence
        rwa [hepoch] at hissued

end

/-! ## Whole runs -/

/-- An id that is listed again is not a new one. -/
private theorem eraseDups_concat (l : List String) (a : String) :
    (l ++ [a]).eraseDups = l.eraseDups ++ if a ∈ l then [] else [a] := by
  rw [List.eraseDups_append]
  by_cases h : a ∈ l
  · simp [List.removeAll, h]
  · simp [List.removeAll, h, List.eraseDups_cons]

/-- What the sealer keeps is what it has returned, with the numbers in the order of issue. -/
structure SealerHistory.Sound (w : SealerHistory) : Prop where
  issued : w.sealer.issued.entries.map Prod.fst = w.firstIssued
  held : ∀ r ∈ w.returned, r ∈ w.sealer.issued.entries
  next : w.sealer.next = min w.sealer.issued.entries.length (2 ^ 53)
  numbered : ∀ (i : Nat) (r : String × SignedEnvelope),
    w.sealer.issued.entries[i]? = some r →
      r.2.core.sequence.map Sequence.number = some (.ofInt i) ∧
        r.2.core.sequence.map (fun s => s.epoch.mapKey) = w.sealer.epoch.map JsNumber.mapKey
  atomic : ∀ step ∈ w.steps, (∃ e, step.answer = .error e) → step.after = step.before

namespace SealerHistory

variable {H : Host} {w : SealerHistory} {c : SealerCall}

private theorem returned_record (env : SignedEnvelope) (event : SealInput)
    (sources : CreationSources) (after : NitroReceiptSealer) :
    (w.record (.sealEvent event sources) (.ok (some env), after)).returned =
      w.returned ++ [(event.eventId, env)] :=
  List.filterMap_append

/-- A call that returns no envelope leaves the list of those returned. -/
private theorem returned_record_none {answer : Except String (Option SignedEnvelope)}
    (h : ∀ env, answer ≠ .ok (some env)) (after : NitroReceiptSealer) :
    (w.record c (answer, after)).returned = w.returned := by
  rw [returned, record, List.filterMap_append, returned, List.append_right_eq_self]
  cases c with
  | acceptEpoch signed => rfl
  | sealEvent event sources =>
    cases answer with
    | error e => rfl
    | ok env =>
      cases env with
      | none => rfl
      | some env => exact (h env rfl).elim

/-- A call that throws and changes nothing, or does not throw, keeps the steps atomic. -/
private theorem atomic_record (h : w.Sound)
    {outcome : Except String (Option SignedEnvelope) × NitroReceiptSealer}
    (hstep : (∃ e, outcome.1 = .error e) → outcome.2 = w.sealer) :
    ∀ step ∈ (w.record c outcome).steps, (∃ e, step.answer = .error e) →
      step.after = step.before := by
  intro step hmem
  rcases List.mem_append.mp hmem with hold | hnew
  · exact h.atomic step hold
  · rw [List.mem_singleton.mp hnew]
    exact hstep

/-- The ids of what was issued are told apart by their position. -/
theorem Sound.idxOf_eq (h : w.Sound) {i : Nat} {r : String × SignedEnvelope}
    (hr : w.sealer.issued.entries[i]? = some r) : w.firstIssued.idxOf r.1 = i := by
  obtain ⟨hlt, hget⟩ := List.getElem?_eq_some_iff.mp hr
  rw [← h.issued]
  have hlt' : i < (w.sealer.issued.entries.map Prod.fst).length := by simpa using hlt
  have hkey : (w.sealer.issued.entries.map Prod.fst)[i] = r.1 := by simp [hget]
  rw [← hkey]
  exact w.sealer.issued.nodup.idxOf_getElem i hlt'

/-- A call that returns no envelope and keeps those issued keeps the history sound. -/
private theorem Sound.record_quiet (h : w.Sound)
    {answer : Except String (Option SignedEnvelope)} {after : NitroReceiptSealer}
    (hquiet : ∀ env, answer ≠ .ok (some env)) (hissued : after.issued = w.sealer.issued)
    (hnext : after.next = w.sealer.next)
    (hepoch : ∀ epoch, w.sealer.epoch = some epoch →
      after.epoch.map JsNumber.mapKey = some epoch.mapKey)
    (hatomic : (∃ e, answer = .error e) → after = w.sealer) :
    (w.record c (answer, after)).Sound := by
  have hreturned : (w.record c (answer, after)).returned = w.returned :=
    returned_record_none hquiet after
  refine ⟨?_, ?_, ?_, ?_, atomic_record h hatomic⟩
  · rw [firstIssued, hreturned, ← firstIssued, ← h.issued, ← hissued]
    rfl
  · rw [hreturned]
    intro r hr
    have hheld := h.held r hr
    rwa [← hissued] at hheld
  · have hcount := h.next
    rw [← hnext, ← hissued] at hcount
    exact hcount
  · intro i r hr
    have hr' : w.sealer.issued.entries[i]? = some r := by
      rw [← hissued]
      exact hr
    obtain ⟨hnumber, hsame⟩ := h.numbered i r hr'
    obtain ⟨sequence, hsequence, _⟩ := Option.map_eq_some_iff.mp hnumber
    rw [hsequence, Option.map_some, eq_comm, Option.map_eq_some_iff] at hsame
    obtain ⟨epoch, hassigned, hkey⟩ := hsame
    refine ⟨hnumber, ?_⟩
    rw [hsequence, Option.map_some, ← hkey]
    exact (hepoch epoch hassigned).symm

/-- What a call does keeps the history sound. -/
theorem Sound.record (h : w.Sound)
    {outcome : Except String (Option SignedEnvelope) × NitroReceiptSealer}
    (hdoes : c.Does H w.sealer outcome) : (w.record c outcome).Sound := by
  cases hdoes with
  | refused =>
    refine h.record_quiet (fun _ hanswer => ?_) rfl rfl ?_ fun _ => rfl
    · cases hanswer
    · rintro epoch hepoch
      rw [hepoch, Option.map_some]
  | assigned hsame =>
    refine h.record_quiet (fun _ hanswer => ?_) rfl rfl ?_ fun ⟨_, hanswer⟩ => ?_
    · cases hanswer
    · rintro epoch hepoch
      rw [Option.map_some, hsame epoch hepoch]
    · cases hanswer
  | @retried event sources env hprior =>
    have hheld : (event.eventId, env) ∈ w.sealer.issued.entries := OrderedMap.mem_of_get hprior
    have hold : event.eventId ∈ w.returned.map Prod.fst := by
      rw [← List.mem_eraseDups, ← firstIssued, ← h.issued]
      exact List.mem_map_of_mem hheld
    refine ⟨?_, ?_, h.next, h.numbered, atomic_record h fun ⟨_, hanswer⟩ => ?_⟩
    · rw [firstIssued, returned_record, List.map_append, List.map_singleton, eraseDups_concat,
        if_pos hold, List.append_nil]
      exact h.issued
    · rw [returned_record]
      intro r hr
      rcases List.mem_append.mp hr with hr | hr
      · exact h.held r hr
      · rw [List.mem_singleton.mp hr]
        exact hheld
    · cases hanswer
  | @issued event sources epoch env hepoch hnew hcounts hsequence =>
    have hfresh : event.eventId ∉ w.sealer.issued.entries.map Prod.fst := by
      rw [← Entries.get_isSome_iff, Option.not_isSome_iff_eq_none]
      exact hnew
    have hentries : (w.sealer.issued.set event.eventId env).entries =
        w.sealer.issued.entries ++ [(event.eventId, env)] := Entries.set_of_not_mem hfresh env
    have hunknown : event.eventId ∉ w.returned.map Prod.fst := by
      rwa [← List.mem_eraseDups, ← firstIssued, ← h.issued]
    have hposition : w.sealer.next = w.sealer.issued.entries.length := by
      rw [h.next, min_eq_left hcounts]
    refine ⟨?_, ?_, ?_, ?_, atomic_record h fun ⟨_, hanswer⟩ => ?_⟩
    · rw [firstIssued, returned_record, List.map_append, List.map_singleton, eraseDups_concat,
        if_neg hunknown, ← firstIssued, ← h.issued]
      exact (congrArg (List.map Prod.fst) hentries).trans List.map_append
    · rw [returned_record]
      intro r hr
      refine hentries ▸ ?_
      rw [List.mem_append] at hr ⊢
      exact hr.imp_left (h.held r)
    · have hlength := congrArg List.length hentries
      rw [List.length_append, List.length_singleton] at hlength
      change w.sealer.following = min (w.sealer.issued.set event.eventId env).entries.length _
      rw [hlength, NitroReceiptSealer.following, hposition]
      split_ifs with hlt
      · rw [min_eq_left hlt]
      · rw [min_eq_right (by omega)]
        omega
    · intro i r hr
      have hr' : (w.sealer.issued.entries ++ [(event.eventId, env)])[i]? = some r := by
        rw [← hentries]
        exact hr
      rcases Nat.lt_trichotomy i w.sealer.issued.entries.length with hlt | heq | hgt
      · rw [List.getElem?_append_left hlt] at hr'
        exact h.numbered i r hr'
      · rw [heq, List.getElem?_concat_length, Option.some.injEq] at hr'
        rw [← hr', heq, hsequence, hposition]
        exact ⟨rfl, (congrArg (Option.map JsNumber.mapKey) hepoch).symm⟩
      · rw [List.getElem?_eq_none (by simp; omega)] at hr'
        cases hr'
    · cases hanswer

/-- A sound history has kept the sealer's promises. -/
theorem Sound.integrity (h : w.Sound) : w.Integrity := by
  have hplace : ∀ id env, (id, env) ∈ w.returned →
      w.sealer.issued.entries[w.firstIssued.idxOf id]? = some (id, env) := by
    intro id env hr
    obtain ⟨i, hi⟩ := List.mem_iff_getElem?.mp (h.held _ hr)
    rwa [h.idxOf_eq hi]
  refine ⟨?_, ?_, ?_, h.atomic⟩
  · intro id env hr
    exact (h.numbered _ _ (hplace id env hr)).1
  · intro id env hr
    exact (h.numbered _ _ (hplace id env hr)).2
  · intro id env env' hr hr'
    have hsame := (hplace id env hr).symm.trans (hplace id env' hr')
    cases hsame
    rfl

/-- The only envelope of a history has the first number. -/
theorem Integrity.only {id : String} {env : SignedEnvelope} (h : w.Integrity)
    (hreturned : w.returned = [(id, env)]) :
    env.core.sequence.map Sequence.number = some (.ofInt 0) := by
  have hfirst := h.numbered id env (hreturned ▸ List.mem_singleton_self _)
  have hissued : w.firstIssued = [id] := by
    rw [firstIssued, hreturned]
    rfl
  rwa [hissued, List.idxOf_cons_self] at hfirst

end SealerHistory

/-- **A sealer numbers its receipts without gaps** as long as every new event it is given can be
sealed: a receipt's number is the position of its event among those issued, all are in the one
epoch accepted, a retry returns the same receipt and what throws changes nothing. -/
theorem sealer_integrity {H : Host} (hsha : ∀ data, (H.sha256 data).length = 32) {key : KeyPair}
    {registry : PayloadRegistry} {attestation : Bytes} {w : SealerHistory}
    (h : (sealerRuns H key registry attestation).RunWhere
      (fun w c => c.Sealable H w.sealer) w) : w.Integrity := by
  suffices hsound : w.Sound from hsound.integrity
  apply h.invariant
  · rintro w rfl
    refine ⟨rfl, ?_, (min_eq_left (Nat.zero_le _)).symm, ?_, ?_⟩
    · intro r hr
      cases hr
    · intro i r hr
      cases hr
    · intro step hstep
      cases hstep
  · rintro w c w' hw hok rfl
    exact hw.record (hok.does hsha)

/-! ## A lost number -/

namespace Reference

/-- A commit to seal, with what is given for whether it is signed. -/
def commitEvent (eventId : String) (signed : JsValue) : SealInput :=
  { eventId
    input :=
      { eventType := "scm.commit"
        occurredAt := "2026-01-01T00:00:00.000Z"
        observedAt := some "2026-01-01T00:00:00.000Z"
        source := { system := "git" }
        actor := { id := "user:alice", type := .human }
        action := "push"
        resource := { type := "repository", ref := "acme/payments" }
        payload := [("repository", .str "acme/payments"), ("commit", .str "9f1c"),
          ("author", .str "alice"), ("signed", signed)]
        eventId := some eventId
        distinct := by simp } }

def sealSources : CreationSources := { ulid := "01KDVM0000ABCDEFGHJKMNPQRS", now := clock 0 }

/-- The call that seals a commit. -/
def sealCommit (eventId : String) (signed : JsValue) : SealerCall :=
  .sealEvent (commitEvent eventId signed) sealSources

/-- The log assigns the first epoch to the source's key. -/
def assignEpoch : SealerCall :=
  .acceptEpoch { registration := { epoch := .ofInt 1, keyId := sourceKey.keyId } }

/-- The source's sealer in the first epoch. -/
def assignedSealer : NitroReceiptSealer :=
  { key := sourceKey, registry := commitRegistry, attestation := [], epoch := some (.ofInt 1) }

/-- The same sealer when the first number is gone. -/
def skippedSealer : NitroReceiptSealer := { assignedSealer with next := 1 }

theorem call_assignEpoch :
    ({ key := sourceKey, registry := commitRegistry, attestation := [] } : NitroReceiptSealer).call
      totalHost assignEpoch = (.ok none, assignedSealer) := rfl

/-- A commit with a flag can be sealed by a sealer that has issued nothing. -/
theorem takes_commit {s : NitroReceiptSealer} (hregistry : s.registry = commitRegistry)
    (hnone : s.issued = .empty) (epoch : JsNumber) :
    s.Takes totalHost (commitEvent "evt-1" (.bool true)) epoch sealSources := by
  have hencodes : ∀ v, ∃ bytes, totalHost.canonicalCbor v = .ok bytes := fun _ => ⟨_, rfl⟩
  have haccepted : (createEnvelope totalHost (commitEvent "evt-1" (.bool true)).input commitRegistry
      sealSources).isOk = true := by decide
  refine ⟨?_, fun core _ => hencodes _, ?_⟩
  · rw [hregistry]
    exact exists_of_isOk haccepted
  · rw [hnone]
    exact Nat.zero_le _

/-- A sealer that has issued nothing seals a commit under its next number. -/
theorem call_sealCommit {s : NitroReceiptSealer} (hregistry : s.registry = commitRegistry)
    (hnone : s.issued = .empty) {epoch : JsNumber} (hepoch : s.epoch = some epoch) :
    ∃ env after, s.call totalHost (sealCommit "evt-1" (.bool true)) = (.ok (some env), after) ∧
      env.core.sequence = some { epoch, number := .ofInt s.next } := by
  have hsha : ∀ data, (totalHost.sha256 data).length = 32 := length_digest
  obtain ⟨env, henv, hsequence⟩ := exists_receipt hsha (takes_commit hregistry hnone epoch)
  refine ⟨env, (s.call totalHost (sealCommit "evt-1" (.bool true))).2, Prod.ext ?_ rfl, hsequence⟩
  rw [sealCommit, NitroReceiptSealer.call, NitroReceiptSealer.sealEvent, hepoch, hnone]
  simp only [OrderedMap.get_empty, henv]
  rfl

/-- A commit whose flag is a text is refused after its number was taken. -/
theorem call_invalidCommit :
    ∃ e, assignedSealer.call totalHost (sealCommit "evt-0" (.str "yes")) =
      (.error e, skippedSealer) := by
  have hrefused : (createEnvelope totalHost (commitEvent "evt-0" (.str "yes")).input commitRegistry
      sealSources).isOk = false := by decide
  have herror : ∃ e, assignedSealer.receipt totalHost (commitEvent "evt-0" (.str "yes")) (.ofInt 1)
      sealSources = .error e := by
    rw [NitroReceiptSealer.receipt, createEnvelope_sequenced]
    change ∃ e, ((createEnvelope totalHost _ commitRegistry sealSources).map _).bind _ = _
    cases h : createEnvelope totalHost (commitEvent "evt-0" (.str "yes")).input commitRegistry
        sealSources with
    | error e => exact ⟨e, rfl⟩
    | ok core =>
      rw [h] at hrefused
      cases hrefused
  obtain ⟨e, he⟩ := herror
  refine ⟨e, ?_⟩
  rw [sealCommit, NitroReceiptSealer.call, NitroReceiptSealer.sealEvent]
  simp only [assignedSealer] at he ⊢
  simp only [OrderedMap.get_empty, he]
  rfl

end Reference

open Reference in
/-- A commit sealed in its epoch has the first number. -/
theorem sealer_integrity_commit :
    ∃ w env, (sealerRuns totalHost sourceKey commitRegistry []).RunWhere
        (fun w c => c.Sealable totalHost w.sealer) w ∧
      w.returned = [("evt-1", env)] ∧ w.Integrity := by
  have hsha : ∀ data, (totalHost.sha256 data).length = 32 := length_digest
  have hstart : (sealerRuns totalHost sourceKey commitRegistry []).RunWhere
      (fun w c => c.Sealable totalHost w.sealer)
      { sealer := { key := sourceKey, registry := commitRegistry, attestation := [] } } :=
    .start rfl
  have hassigned := hstart.snoc (l := assignEpoch) trivial
    (congrArg (SealerHistory.record _ _) call_assignEpoch.symm)
  have hsealable : (sealCommit "evt-1" (.bool true)).Sealable totalHost assignedSealer :=
    fun epoch _ _ => takes_commit rfl rfl epoch
  obtain ⟨env, after, hcall, _⟩ := call_sealCommit (s := assignedSealer) rfl rfl rfl
  have hrun := hassigned.snoc hsealable (congrArg (SealerHistory.record _ _) hcall.symm)
  exact ⟨_, env, hrun, SealerHistory.returned_record env _ _ after, sealer_integrity hsha hrun⟩

open Reference in
/-- A commit that cannot be sealed takes the first number with it. -/
theorem invalid_commit_loses_number :
    ∃ w env, (sealerRuns totalHost sourceKey commitRegistry []).Reachable w ∧
      w.returned = [("evt-1", env)] ∧
      env.core.sequence.map Sequence.number = some (.ofInt 1) ∧ ¬w.Integrity := by
  have hstart : (sealerRuns totalHost sourceKey commitRegistry []).Reachable
      { sealer := { key := sourceKey, registry := commitRegistry, attestation := [] } } :=
    .start rfl
  have hassigned := hstart.snoc (l := assignEpoch) trivial
    (congrArg (SealerHistory.record _ _) call_assignEpoch.symm)
  obtain ⟨e, hrefused⟩ := call_invalidCommit
  have hlost := hassigned.snoc trivial (congrArg (SealerHistory.record _ _) hrefused.symm)
  obtain ⟨env, after, hcall, hsequence⟩ :=
    call_sealCommit (s := skippedSealer) rfl rfl rfl
  have hrun := hlost.snoc trivial (congrArg (SealerHistory.record _ _) hcall.symm)
  have hnumber : env.core.sequence.map Sequence.number = some (.ofInt 1) := by
    rw [hsequence]
    rfl
  refine ⟨_, env, hrun, SealerHistory.returned_record env _ _ after, hnumber, fun hintegrity => ?_⟩
  have hfirst := hintegrity.only (SealerHistory.returned_record env _ _ after)
  rw [hnumber] at hfirst
  cases hfirst

end CoolSdk
