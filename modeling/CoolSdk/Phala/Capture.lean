import CoolSdk.Core.Transition
import CoolSdk.Phala.Engine

/-!
# The capture queue and its client

Events are queued by synchronous calls and drained in batches behind them. A batch is handed to
the attested channel as a whole, sealed one event after another inside, and retried as a whole
when anything in it throws. Whatever runs between two awaits is one step; timers fire whenever
they like.
-/

namespace CoolSdk

/-- A submitted event; `awaited` when a promise was returned for its receipt. -/
structure Envelope (E : Type) where
  id : Nat
  event : E
  awaited : Bool

/-- How a promise is settled. -/
inductive Settlement
  | resolved (receipt : ReceiptV2)
  | rejected (reason : String)

/-- What happens to submitted events, by their ids. -/
inductive Happening
  | refused (id : Nat)
  | evicted (id : Nat)
  | appended (id : Nat)
  | sealed (id : Nat) (receipt : ReceiptV2)
  | threw (id : Nat)
  | settles (id : Nat) (settlement : Settlement)

/-- Where the sealing of an event stops short of its promise. -/
inductive SealStage
  /-- Sealing threw and nothing was appended. -/
  | unappended
  /-- Sealing threw after its append. -/
  | appended
  /-- The receipt exists and the receipt callback threw. -/
  | callback
  deriving DecidableEq, Repr

/-- Where a batch stops: the event that failed, if the batch got to one, and those behind it. -/
structure Stop (E : Type) where
  error : String
  failing : Option (Envelope E × SealStage)
  rest : List (Envelope E)

/-- A running drain between two of its steps. -/
inductive Drain (E : Type)
  | looping
  /-- An attempt to send has ended, with an error or without. -/
  | settled (batch : List (Envelope E)) (attempt : Nat) (error : Option String)
  /-- The retry timer is running. -/
  | waiting (batch : List (Envelope E)) (attempt : Nat)

/-- The queue's bounds, and why the channel is closed if it is. -/
structure CaptureOptions where
  maxQueue : Nat := 2048
  batchSize : Nat := 32
  maxRetries : Nat := 2
  channelClosed : Option String := none

/-- What its surroundings decide of sealing one event: what the plane adds, the clock, the two
writes, and whether the receipt callback throws. -/
structure SealIo (κ ι : Type) where
  plane : κ
  clock : String
  leafIo : ι
  headIo : ι
  onReceipt : Option String

/-- A client in use, with all that was submitted and all that happened to it. -/
structure CoolTee (σ E : Type) where
  log : σ
  queue : List (Envelope E)
  drains : List (Drain E)
  inFlight : Bool
  closed : Bool
  submitted : List (Envelope E)
  history : List Happening

/-- One call, or one step of a drain. -/
inductive TeeMove (E κ ι : Type)
  /-- `capture`, or with a promise `captureSealed` and `record`. -/
  | capture (event : E) (awaited : Bool)
  /-- A flush by a caller or a timer; nested in the first step of a running flush, it is made
  by a callback before that flush has recorded itself as in flight. -/
  | flush (nested : Bool)
  | close
  | advance (drain : Nat) (io : Nat → SealIo κ ι)

/-- Whether it is the throwing of an event's sealing. -/
def Happening.isThrowOf (id : Nat) : Happening → Bool
  | .threw i => decide (i = id)
  | _ => false

section

variable {σ ι E κ : Type}

/-- What a promise is told, if there is one. -/
def Envelope.settle (e : Envelope E) (settlement : Settlement) : List Happening :=
  if e.awaited then [.settles e.id settlement] else []

/-- What dropping an event does. -/
def Envelope.onDrop (e : Envelope E) (reason : String) : List Happening :=
  e.settle (.rejected ("capture dropped: " ++ reason))

variable (o : CaptureOptions)

/-- The queue of the client: past its bound, the oldest event is dropped for the new one. -/
def CoolTee.enqueue (s : CoolTee σ E) (e : Envelope E) : CoolTee σ E :=
  if s.closed then { s with history := s.history ++ [.refused e.id] }
  else if o.maxQueue ≤ s.queue.length then
    match s.queue with
    | [] => { s with queue := [e] }
    | oldest :: rest =>
      { s with
        queue := rest ++ [e]
        history := s.history ++ (.evicted oldest.id :: oldest.onDrop "queue overflow") }
  else { s with queue := s.queue ++ [e] }

/-- Start a drain, unless the call is made while one is recorded as in flight. -/
def CoolTee.flush (nested : Bool) (s : CoolTee σ E) : CoolTee σ E :=
  if s.inFlight && !nested then s
  else { s with drains := s.drains ++ [.looping], inFlight := true }

/-- Submit an event; a caller that waits for its receipt also flushes. -/
def CoolTee.capture (s : CoolTee σ E) (event : E) (awaited : Bool) : CoolTee σ E :=
  let e : Envelope E := { id := s.submitted.length, event := event, awaited := awaited }
  let s := CoolTee.enqueue o { s with submitted := s.submitted ++ [e] } e
  if awaited then s.flush false else s

variable (H : Host) (L : EvidenceLog σ ι) (recordKey : KeyPair)
  (coreOf : E → κ → Except String RecordCoreV2)

/-- Seal one event. -/
def sealEvent (event : E) (io : SealIo κ ι) (log : σ) : Except String ReceiptV2 × σ :=
  match coreOf event io.plane with
  | .error e => (.error e, log)
  | .ok core => EvidencePlane.seal H L recordKey core io.clock io.leafIo io.headIo log

/-- The sink: seal a batch one by one, each receipt to its callback and then to its promise. -/
def sealBatch (io : Nat → SealIo κ ι) :
    List (Envelope E) → σ → σ × List Happening × Option (Stop E)
  | [], log => (log, [], none)
  | e :: rest, log =>
    let sealing := sealEvent H L recordKey coreOf e.event (io e.id) log
    let grew := L.size sealing.2 ≠ L.size log
    let append : List Happening := if grew then [.appended e.id] else []
    match sealing.1 with
    | .error error =>
      (sealing.2, append ++ [.threw e.id],
        some
          { error := error
            failing := some (e, if grew then .appended else .unappended)
            rest := rest })
    | .ok receipt =>
      match (io e.id).onReceipt with
      | some error =>
        (sealing.2, append ++ [.sealed e.id receipt],
          some { error := error, failing := some (e, .callback), rest := rest })
      | none =>
        let later := sealBatch io rest sealing.2
        (later.1, append ++ .sealed e.id receipt :: e.settle (.resolved receipt) ++ later.2.1,
          later.2.2)

/-- Transmit a batch; a closed channel rejects it before anything is sealed. -/
def sendBatch (io : Nat → SealIo κ ι) (batch : List (Envelope E)) (log : σ) :
    σ × List Happening × Option (Stop E) :=
  match o.channelClosed with
  | some error => (log, [], some { error := error, failing := none, rest := batch })
  | none => sealBatch H L recordKey coreOf io batch log

/-- One attempt of a drain to send its batch. -/
def CoolTee.send (io : Nat → SealIo κ ι) (drain : Nat) (batch : List (Envelope E)) (attempt : Nat)
    (s : CoolTee σ E) : CoolTee σ E :=
  let sent := sendBatch o H L recordKey coreOf io batch s.log
  { s with
    log := sent.1
    history := s.history ++ sent.2.1
    drains := s.drains.set drain (.settled batch attempt (sent.2.2.map Stop.error)) }

/-- The batch a drain sends when it advances, and which attempt that is. -/
def CoolTee.sending (s : CoolTee σ E) (drain : Nat) : Option (List (Envelope E) × Nat) :=
  match s.drains[drain]? with
  | some .looping => if s.queue.isEmpty then none else some (s.queue.take o.batchSize, 0)
  | some (.waiting batch attempt) => some (batch, attempt)
  | _ => none

/-- One step of a drain, from one await to the next. -/
def CoolTee.advance (io : Nat → SealIo κ ι) (drain : Nat) (s : CoolTee σ E) : CoolTee σ E :=
  match s.drains[drain]? with
  | none => s
  | some .looping =>
    if s.queue.isEmpty then { s with drains := s.drains.eraseIdx drain, inFlight := false }
    else
      CoolTee.send o H L recordKey coreOf io drain (s.queue.take o.batchSize) 0
        { s with queue := s.queue.drop o.batchSize }
  | some (.waiting batch attempt) => s.send o H L recordKey coreOf io drain batch attempt
  | some (.settled _ _ none) => { s with drains := s.drains.set drain .looping }
  | some (.settled batch attempt (some error)) =>
    if o.maxRetries ≤ attempt then
      { s with
        history := s.history ++ batch.flatMap fun e => e.onDrop error
        drains := s.drains.set drain .looping }
    else { s with drains := s.drains.set drain (.waiting batch (attempt + 1)) }

/-- The client after a move. -/
def CoolTee.next (s : CoolTee σ E) : TeeMove E κ ι → CoolTee σ E
  | .capture event awaited => s.capture o event awaited
  | .flush nested => s.flush nested
  | .close => CoolTee.flush false { s with closed := true }
  | .advance drain io => s.advance o H L recordKey coreOf io drain

variable (sealable : E → Bool)

/-- Whether no sealing of an event that cannot fail has thrown. -/
def CoolTee.honest (s : CoolTee σ E) : Bool :=
  s.submitted.all fun e => !sealable e.event || s.history.all fun h => !h.isThrowOf e.id

end

end CoolSdk
