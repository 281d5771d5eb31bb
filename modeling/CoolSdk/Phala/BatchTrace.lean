import CoolSdk.Phala.Capture
import CoolSdk.Phala.Transparency

/-!
# What becomes of submitted events

What a history says of one event, what a client owes each event it is done with, and what one
attempt to send a batch does to the events of the batch.
-/

namespace CoolSdk

/-! ## What happened to one event -/

/-- What a history says of one event. -/
@[ext]
structure Trace where
  appends : Nat := 0
  receipts : List ReceiptV2 := []
  promise : Option Settlement := none
  evicted : Bool := false
  refused : Bool := false

/-- One history after another; the first settlement of a promise stands. -/
def Trace.then (t u : Trace) : Trace :=
  { appends := t.appends + u.appends
    receipts := t.receipts ++ u.receipts
    promise := t.promise.or u.promise
    evicted := t.evicted || u.evicted
    refused := t.refused || u.refused }

theorem Trace.none_then (t : Trace) : Trace.then {} t = t := by
  ext <;> simp [Trace.then]

theorem Trace.then_none (t : Trace) : t.then {} = t := by
  ext <;> simp [Trace.then]

theorem Trace.then_assoc (t u v : Trace) : (t.then u).then v = t.then (u.then v) := by
  ext <;> simp [Trace.then, Nat.add_assoc, Bool.or_assoc, Option.or_assoc]

/-- The event it happens to. -/
def Happening.id : Happening → Nat
  | .refused id | .evicted id | .appended id | .sealed id _ | .threw id | .settles id _ => id

/-- What it does to its event. -/
def Happening.trace : Happening → Trace
  | .refused _ => { refused := true }
  | .evicted _ => { evicted := true }
  | .appended _ => { appends := 1 }
  | .sealed _ receipt => { receipts := [receipt] }
  | .threw _ => {}
  | .settles _ settlement => { promise := some settlement }

/-- What a history says of an event. -/
def traceOf : List Happening → Nat → Trace
  | [], _ => {}
  | h :: history, id => if h.id = id then h.trace.then (traceOf history id) else traceOf history id

theorem traceOf_append (history later : List Happening) (id : Nat) :
    traceOf (history ++ later) id = (traceOf history id).then (traceOf later id) := by
  induction history with
  | nil => rw [List.nil_append, traceOf, Trace.none_then]
  | cons h history ih =>
    rw [List.cons_append, traceOf, traceOf, ih]
    split
    · rw [Trace.then_assoc]
    · rfl

/-- Nothing has happened to an event that a history does not mention. -/
theorem traceOf_foreign {history : List Happening} {id : Nat} (h : ∀ x ∈ history, x.id ≠ id) :
    traceOf history id = {} := by
  induction history with
  | nil => rfl
  | cons x history ih =>
    rw [List.forall_mem_cons] at h
    rw [traceOf, if_neg h.1, ih h.2]

/-- What happens later to others leaves an event as it was. -/
theorem traceOf_append_foreign {later : List Happening} {id : Nat}
    (h : ∀ x ∈ later, x.id ≠ id) (history : List Happening) :
    traceOf (history ++ later) id = traceOf history id := by
  rw [traceOf_append, traceOf_foreign h, Trace.then_none]

/-- What happens first to others is not what happens to an event. -/
theorem traceOf_foreign_append {history : List Happening} {id : Nat}
    (h : ∀ x ∈ history, x.id ≠ id) (later : List Happening) :
    traceOf (history ++ later) id = traceOf later id := by
  rw [traceOf_append, traceOf_foreign h, Trace.none_then]

/-! ## What a client owes -/

section

variable {σ ι E κ : Type} (sealable : E → Bool)

/-- What a client owes an event it is done with. -/
structure Over (e : Envelope E) (t : Trace) : Prop where
  atMostOnce : t.appends ≤ 1
  /-- What can be sealed was sealed once, unless it was evicted or came after the close. -/
  sealedOnce : sealable e.event = true → t.evicted = false → t.refused = false →
    t.appends = 1 ∧ t.receipts.length = 1
  /-- A promise is resolved with a receipt of its own event, or rejected if there is none. -/
  answered : e.awaited = true →
    if t.receipts = [] then ∃ reason, t.promise = some (.rejected reason)
    else ∃ receipt ∈ t.receipts, t.promise = some (.resolved receipt)

variable (o : CaptureOptions)

/-- Whether a batch stops where stopping does no harm: with another attempt to come, at its first
event and before its append; for good, with nothing behind it that can be sealed and no receipt
kept from its promise. -/
def Stop.safe (size attempt : Nat) (stop : Stop E) : Bool :=
  if attempt < o.maxRetries then
    match stop.failing with
    | none => true
    | some (_, stage) => decide (stage = .unappended) && decide (stop.rest.length + 1 = size)
  else
    (stop.rest.all fun e => !sealable e.event) &&
      match stop.failing with
      | some (e, .callback) => !e.awaited
      | _ => true

variable (H : Host) (L : EvidenceLog σ ι) (recordKey : KeyPair)
  (coreOf : E → κ → Except String RecordCoreV2)

/-- Whether a move awaits nothing of a closed client and sends no batch that stops with harm. -/
def TeeMove.safe (s : CoolTee σ E) : TeeMove E κ ι → Bool
  | .capture _ awaited => !(awaited && s.closed)
  | .flush _ | .close => true
  | .advance drain io =>
    match s.sending o drain with
    | none => true
    | some (batch, attempt) =>
      match (sendBatch o H L recordKey coreOf io batch s.log).2.2 with
      | none => true
      | some stop => stop.safe sealable o batch.length attempt

end

/-! ## Sealing a batch -/

section

variable {H : Host} {σ ι E κ : Type} {L : EvidenceLog σ ι} {leafHashes : σ → List Bytes}
  {recordKey : KeyPair} {coreOf : E → κ → Except String RecordCoreV2}

/-- A sealed record has grown the log. -/
private theorem seal_size (hL : L.KeepsTree H leafHashes) {core : RecordCoreV2} {clock : String}
    {leafIo headIo : ι} {s s' : σ} {receipt : ReceiptV2}
    (h : EvidencePlane.seal H L recordKey core clock leafIo headIo s = (.ok receipt, s')) :
    L.size s' ≠ L.size s := by
  rw [EvidencePlane.seal] at h
  split at h
  · cases h
  · rename_i record binding leafData _
    have happend := hL.append leafIo leafData s
    split at h
    · cases h
    · rename_i landed t happended
      rw [happended] at happend
      have hkeeps := hL.keeps headIo clock t
      have hsize : L.size (L.buildSTH headIo clock t).2 = L.size s + 1 := by
        rw [hL.size, hL.size, hkeeps, happend.2, List.length_append, List.length_singleton]
      split at h
      · cases h
      · rename_i hhead
        rw [hhead] at hsize
        split at h
        · cases h
        · cases h
          have hgrew : L.size s' = L.size s + 1 := hsize
          omega

private theorem sealEvent_size (hL : L.KeepsTree H leafHashes) {event : E} {io : SealIo κ ι}
    {log : σ} {receipt : ReceiptV2}
    (h : (sealEvent H L recordKey coreOf event io log).1 = .ok receipt) :
    L.size (sealEvent H L recordKey coreOf event io log).2 ≠ L.size log := by
  rw [sealEvent] at h ⊢
  cases hcore : coreOf event io.plane with
  | error e =>
    rw [hcore] at h
    cases h
  | ok core =>
    rw [hcore] at h
    exact seal_size hL (Prod.ext h rfl)

/-- What a batch leaves of an event that went all the way. -/
def Sealed (e : Envelope E) (t : Trace) : Prop :=
  ∃ receipt, t = { appends := 1, receipts := [receipt],
                   promise := if e.awaited then some (.resolved receipt) else none }

/-- What a batch leaves of the event it stopped at. -/
def StoppedAt : SealStage → Trace → Prop
  | .unappended, t => t = {}
  | .appended, t => t = { appends := 1 }
  | .callback, t => ∃ receipt, t = { appends := 1, receipts := [receipt] }

theorem settle_trace (e : Envelope E) (settlement : Settlement) :
    traceOf (e.settle settlement) e.id =
      { promise := if e.awaited then some settlement else none } := by
  rw [Envelope.settle]
  split
  · exact (if_pos rfl).trans (Trace.then_none _)
  · rfl

theorem settle_id {e : Envelope E} {settlement : Settlement} {h : Happening}
    (hmem : h ∈ e.settle settlement) : h.id = e.id := by
  rw [Envelope.settle] at hmem
  split at hmem
  · rw [List.mem_singleton] at hmem
    rw [hmem]
    rfl
  · cases hmem

/-- What is recorded of an event that goes all the way. -/
private theorem sealed_trace (e : Envelope E) (receipt : ReceiptV2) :
    Sealed e (traceOf (.appended e.id :: .sealed e.id receipt :: e.settle (.resolved receipt))
      e.id) := by
  refine ⟨receipt, ?_⟩
  have hsettle := settle_trace e (.resolved receipt)
  calc traceOf (.appended e.id :: .sealed e.id receipt :: e.settle (.resolved receipt)) e.id
      = (Happening.appended e.id).trace.then ((Happening.sealed e.id receipt).trace.then
          (traceOf (e.settle (.resolved receipt)) e.id)) := by
        rw [traceOf, if_pos (by rfl), traceOf, if_pos (by rfl)]
    _ = { appends := 1, receipts := [receipt],
          promise := if e.awaited then some (.resolved receipt) else none } := by
        rw [hsettle]
        rfl

/-- A batch touches its own events only. Those before a stop went all the way, the one it
stopped at went as far as its stage says, and those behind it are as they were. -/
structure BatchSent (batch : List (Envelope E)) (happened : List Happening)
    (stop : Option (Stop E)) : Prop where
  own : ∀ h ∈ happened, h.id ∈ batch.map Envelope.id
  through : stop = none → ∀ e ∈ batch, Sealed e (traceOf happened e.id)
  stopped : ∀ st, stop = some st → ∃ before e stage, st.failing = some (e, stage) ∧
    batch = before ++ e :: st.rest ∧ (∀ b ∈ before, Sealed b (traceOf happened b.id)) ∧
    StoppedAt stage (traceOf happened e.id) ∧ (∀ r ∈ st.rest, traceOf happened r.id = {}) ∧
    (stage ≠ .callback → .threw e.id ∈ happened)

private theorem ne_of_fresh {e r : Envelope E} {rest : List (Envelope E)}
    (hfresh : e.id ∉ rest.map Envelope.id) (hr : r ∈ rest) : e.id ≠ r.id := by
  intro heq
  exact hfresh (heq ▸ List.mem_map_of_mem hr)

/-- A batch that stops at its first event. -/
private theorem BatchSent.stop {e : Envelope E} {rest : List (Envelope E)}
    {happened : List Happening} {stage : SealStage} {error : String}
    (hfresh : e.id ∉ rest.map Envelope.id) (hown : ∀ h ∈ happened, h.id = e.id)
    (hstage : StoppedAt stage (traceOf happened e.id))
    (hthrew : stage ≠ .callback → .threw e.id ∈ happened) :
    BatchSent (e :: rest) happened
      (some { error := error, failing := some (e, stage), rest := rest }) where
  own h hmem := by
    rw [hown h hmem]
    exact List.mem_cons_self
  through h := by cases h
  stopped st hst := by
    cases hst
    refine ⟨[], e, stage, rfl, rfl, fun b hb => absurd hb List.not_mem_nil, hstage, ?_, hthrew⟩
    intro r hr
    refine traceOf_foreign fun h hmem => ?_
    rw [hown h hmem]
    exact ne_of_fresh hfresh hr

/-- A batch whose first event goes all the way. -/
private theorem BatchSent.cons {e : Envelope E} {rest : List (Envelope E)}
    {first later : List Happening} {stop : Option (Stop E)}
    (hfresh : e.id ∉ rest.map Envelope.id) (hown : ∀ h ∈ first, h.id = e.id)
    (hsealed : Sealed e (traceOf first e.id)) (hrest : BatchSent rest later stop) :
    BatchSent (e :: rest) (first ++ later) stop := by
  have hhere : traceOf (first ++ later) e.id = traceOf first e.id := by
    refine traceOf_append_foreign (fun h hmem heq => hfresh ?_) first
    exact heq ▸ hrest.own h hmem
  have hthere : ∀ r ∈ rest, traceOf (first ++ later) r.id = traceOf later r.id := by
    intro r hr
    refine traceOf_foreign_append (fun h hmem => ?_) later
    exact (hown h hmem).symm ▸ ne_of_fresh hfresh hr
  refine ⟨?_, ?_, ?_⟩
  · intro h hmem
    rw [List.map_cons, List.mem_cons]
    rcases List.mem_append.mp hmem with hmem | hmem
    · exact .inl (hown h hmem)
    · exact .inr (hrest.own h hmem)
  · intro hstop
    rw [List.forall_mem_cons, hhere]
    refine ⟨hsealed, fun r hr => ?_⟩
    rw [hthere r hr]
    exact hrest.through hstop r hr
  · intro st hst
    obtain ⟨before, f, stage, hfailing, hsplit, hbefore, hstage, hbehind, hthrew⟩ :=
      hrest.stopped st hst
    subst hsplit
    refine ⟨e :: before, f, stage, hfailing, rfl, ?_, ?_, ?_, ?_⟩
    · rw [List.forall_mem_cons, hhere]
      refine ⟨hsealed, fun b hb => ?_⟩
      rw [hthere b (List.mem_append_left _ hb)]
      exact hbefore b hb
    · rw [hthere f (List.mem_append_right _ List.mem_cons_self)]
      exact hstage
    · intro r hr
      rw [hthere r (List.mem_append_right _ (List.mem_cons_of_mem _ hr))]
      exact hbehind r hr
    · intro hcallback
      exact List.mem_append_right _ (hthrew hcallback)

/-- The sink sends a batch so. -/
theorem sealBatch_sent (hL : L.KeepsTree H leafHashes) (io : Nat → SealIo κ ι)
    (batch : List (Envelope E)) (log : σ) (hids : (batch.map Envelope.id).Nodup) :
    BatchSent batch (sealBatch H L recordKey coreOf io batch log).2.1
      (sealBatch H L recordKey coreOf io batch log).2.2 := by
  induction batch generalizing log with
  | nil =>
    refine ⟨fun h hmem => absurd hmem List.not_mem_nil, fun _ e he => absurd he List.not_mem_nil, ?_⟩
    intro stop hstop
    cases hstop
  | cons e rest ih =>
    rw [List.map_cons, List.nodup_cons] at hids
    obtain ⟨hfresh, hids⟩ := hids
    have hsize : ∀ receipt, (sealEvent H L recordKey coreOf e.event (io e.id) log).1 = .ok receipt →
        L.size (sealEvent H L recordKey coreOf e.event (io e.id) log).2 ≠ L.size log :=
      fun _ h => sealEvent_size hL h
    unfold sealBatch
    generalize sealEvent H L recordKey coreOf e.event (io e.id) log = sealing at hsize ⊢
    obtain ⟨result, log'⟩ := sealing
    cases result with
    | error error =>
      by_cases hgrew : L.size log' ≠ L.size log
      · simp only [if_pos hgrew]
        refine .stop hfresh ?_ ?_ ?_
        · simp [Happening.id]
        · simp [StoppedAt, traceOf, Happening.id, Happening.trace, Trace.then]
        · simp
      · simp only [if_neg hgrew]
        refine .stop hfresh ?_ ?_ ?_
        · simp [Happening.id]
        · simp [StoppedAt, traceOf, Happening.id, Happening.trace, Trace.then]
        · simp
    | ok receipt =>
      have hgrew : L.size log' ≠ L.size log := hsize receipt rfl
      simp only [if_pos hgrew]
      cases (io e.id).onReceipt with
      | some error =>
        refine .stop hfresh ?_ ?_ ?_
        · simp [Happening.id]
        · simp [StoppedAt, traceOf, Happening.id, Happening.trace, Trace.then]
        · simp
      | none =>
        refine .cons hfresh ?_ (sealed_trace e receipt) (ih log' hids)
        intro h hmem
        rcases List.mem_cons.mp hmem with rfl | hmem
        · rfl
        · rcases List.mem_cons.mp hmem with rfl | hmem
          · rfl
          · exact settle_id hmem

end

end CoolSdk
