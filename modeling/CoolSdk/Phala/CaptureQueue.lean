import CoolSdk.Core.Transition
import Mathlib.Data.List.Perm.Basic
import Mathlib.Data.List.Count

/-!
# The capture queue by itself

The queue under arbitrary hooks. A hook may call the queue again, return, or throw, so the queue
keeps the frames of the calls that wait for one; drains that wait for a send or a timer are beside
them. Beside the counters a state keeps which events they stand for. Each event stays in one place
as long as no hook throws where the queue does not expect it.
-/

namespace CoolSdk

/-- What a hook or a sink throws; its message cannot be read where it is null or undefined. -/
structure HookError where
  readable : Bool
  message : Option String
  deriving DecidableEq, Repr

/-- A captured event, numbered in the order of its capture. -/
structure Captured (T : Type) where
  id : Nat
  event : T
  deriving DecidableEq, Repr

/-- A call that waits for a hook, or for the code it called. -/
inductive QueueFrame (T : Type)
  /-- `capture` of an event, while `onDrop` is told of the one dropped for it. -/
  | capturing (item : Captured T)
  /-- `flush`, while the drain it started runs to its first await. -/
  | flushing
  /-- A drain, while `send` is called with a batch. -/
  | sending (batch : List (Captured T)) (attempt : Nat)
  /-- A drain, while `onSent` is told of a batch. -/
  | notifying (batch : List (Captured T)) (attempt : Nat)
  /-- A drain, while `onDrop` is told of an event of a batch; the rest comes next. -/
  | reporting (rest : List (Captured T)) (reason : String)
  deriving DecidableEq, Repr

/-- A drain that waits. -/
inductive QueueDrain (T : Type)
  | awaiting (batch : List (Captured T)) (attempt : Nat)
  | waiting (batch : List (Captured T)) (attempt : Nat)
  /-- It is over, and its flush promise is about to be settled. -/
  | finished
  deriving DecidableEq, Repr

/-- The bounds of a queue, and which events are `undefined`. -/
structure QueueOptions (T : Type) where
  maxQueue : Nat := 2048
  batchSize : Nat := 32
  maxRetries : Nat := 2
  isUndefined : T → Bool := fun _ => false

/-- A queue in use: its fields, what waits, and the events behind the counters. -/
structure CaptureQueue (T : Type) where
  queue : List (Captured T) := []
  timer : Bool := false
  inFlight : Bool := false
  closed : Bool := false
  sent : Nat := 0
  dropped : Nat := 0
  failures : Nat := 0
  batches : Nat := 0
  highWater : Nat := 0
  lastError : Option String := none
  stack : List (QueueFrame T) := []
  drains : List (QueueDrain T) := []
  /-- Captured before the queue was closed. -/
  accepted : List (Captured T) := []
  /-- Part of a send that resolved, once for each. -/
  resolved : List (Captured T) := []
  /-- Counted as dropped. -/
  discarded : List (Captured T) := []
  /-- Told to `onDrop`. -/
  reported : List (Captured T) := []
  /-- Some call of `capture` has thrown. -/
  threw : Bool := false
  /-- Some flush promise is rejected. -/
  rejected : Bool := false
  deriving DecidableEq, Repr

/-- A call of the queue, how a hook ends, or what happens to a drain that waits. -/
inductive QueueMove (T : Type)
  | capture (event : T)
  | flush
  | close
  /-- The flush timer fires. -/
  | timer
  | returns
  | throws (error : HookError)
  /-- The promise of a send is settled. -/
  | resolves (drain : Nat)
  | rejects (drain : Nat) (error : HookError)
  /-- The retry timer fires. -/
  | retries (drain : Nat)
  /-- The promise of a flush is settled. -/
  | settles (drain : Nat)
  deriving DecidableEq, Repr

namespace CaptureQueue

variable {T : Type} (o : QueueOptions T)

/-- Push an event, note how deep the queue is, and schedule a flush. -/
def push (item : Captured T) (s : CaptureQueue T) : CaptureQueue T :=
  { s with
    queue := s.queue ++ [item]
    highWater := max s.highWater (s.queue.length + 1)
    timer := s.timer || !s.closed }

/-- A drain waits or is over: control goes back to the flush that started it, if it still runs, or
to nobody. -/
def suspend (drain : QueueDrain T) (s : CaptureQueue T) : CaptureQueue T :=
  match s.stack with
  | .flushing :: stack =>
    { s with stack, inFlight := true, drains := s.drains ++ [drain] }
  | _ => { s with drains := s.drains ++ [drain] }

/-- The outer loop of a drain: take a batch and send it, while there are events. -/
def loop (s : CaptureQueue T) : CaptureQueue T :=
  if s.queue.isEmpty then s.suspend .finished
  else
    { s with
      queue := s.queue.drop o.batchSize
      stack := .sending (s.queue.take o.batchSize) 0 :: s.stack }

/-- Tell `onDrop` of the events of a batch, one after another, and go on. -/
def report (events : List (Captured T)) (reason : String) (s : CaptureQueue T) :
    CaptureQueue T :=
  match events with
  | [] => s.loop o
  | event :: rest =>
    { s with reported := s.reported ++ [event], stack := .reporting rest reason :: s.stack }

/-- The catch of a drain: the batch waits for a retry, or is dropped. -/
def failed (batch : List (Captured T)) (attempt : Nat) (error : HookError) (s : CaptureQueue T) :
    CaptureQueue T :=
  if error.readable then
    if o.maxRetries ≤ attempt then
      report o batch (error.message.getD "send failed")
        { s with
          failures := s.failures + 1
          lastError := error.message
          dropped := s.dropped + batch.length
          discarded := s.discarded ++ batch }
    else
      suspend (.waiting batch (attempt + 1))
        { s with failures := s.failures + 1, lastError := error.message }
  -- reading the message throws out of the catch, and out of the drain
  else suspend .finished { s with failures := s.failures + 1, rejected := true }

/-- A send has resolved: count its batch and tell `onSent`. -/
def delivered (batch : List (Captured T)) (attempt : Nat) (s : CaptureQueue T) : CaptureQueue T :=
  { s with
    sent := s.sent + batch.length
    batches := s.batches + 1
    resolved := s.resolved ++ batch
    stack := .notifying batch attempt :: s.stack }

/-- Enqueue an event; past the bound the oldest is dropped for it. -/
def capture (event : T) (s : CaptureQueue T) : CaptureQueue T :=
  if s.closed then s
  else
    let item : Captured T := { id := s.accepted.length, event }
    let s := { s with accepted := s.accepted ++ [item] }
    if o.maxQueue ≤ s.queue.length then
      match s.queue with
      | [] => push item { s with dropped := s.dropped + 1 }
      | evicted :: queue =>
        let s :=
          { s with queue, dropped := s.dropped + 1, discarded := s.discarded ++ [evicted] }
        if o.isUndefined evicted.event then s.push item
        else
          { s with reported := s.reported ++ [evicted], stack := .capturing item :: s.stack }
    else s.push item

/-- Start a drain, unless one is in flight. -/
def flush (s : CaptureQueue T) : CaptureQueue T :=
  if s.inFlight then s else loop o { s with stack := .flushing :: s.stack }

/-- Stop accepting events and flush. -/
def close (s : CaptureQueue T) : CaptureQueue T := flush o { s with closed := true, timer := false }

/-- The flush timer fires. -/
def timerFires (s : CaptureQueue T) : CaptureQueue T := flush o { s with timer := false }

/-- The hook on top of the stack returns; `send` returns its promise. -/
def returns (s : CaptureQueue T) : Option (CaptureQueue T) :=
  match s.stack with
  | .capturing item :: stack => some (push item { s with stack })
  | .sending batch attempt :: stack => some (suspend (.awaiting batch attempt) { s with stack })
  | .notifying _ _ :: stack => some (loop o { s with stack })
  | .reporting rest reason :: stack => some (report o rest reason { s with stack })
  | .flushing :: _ | [] => none

/-- The hook on top of the stack throws. -/
def throws (error : HookError) (s : CaptureQueue T) : Option (CaptureQueue T) :=
  match s.stack with
  | .capturing _ :: stack =>
    -- the event is not pushed any more
    some (if error.readable then
      { s with stack, failures := s.failures + 1, lastError := error.message }
    else { s with stack, failures := s.failures + 1, threw := true })
  | .sending batch attempt :: stack | .notifying batch attempt :: stack =>
    some (failed o batch attempt error { s with stack })
  | .reporting _ _ :: stack => some (suspend .finished { s with stack, rejected := true })
  | .flushing :: _ | [] => none

/-- A drain that waits is gone on with. -/
def resume (i : Nat) (go : QueueDrain T → CaptureQueue T → Option (CaptureQueue T))
    (s : CaptureQueue T) : Option (CaptureQueue T) :=
  if s.stack.isEmpty then
    s.drains[i]?.bind fun drain => go drain { s with drains := s.drains.eraseIdx i }
  else none

/-- The queue after a move that can be made. -/
def next (s : CaptureQueue T) : QueueMove T → Option (CaptureQueue T)
  | .capture event => some (s.capture o event)
  | .flush => some (s.flush o)
  | .close => some (s.close o)
  | .timer => if s.stack.isEmpty then some (s.timerFires o) else none
  | .returns => s.returns o
  | .throws error => s.throws o error
  | .resolves i => s.resume i fun drain s =>
    match drain with
    | .awaiting batch attempt => some (s.delivered batch attempt)
    | _ => none
  | .rejects i error => s.resume i fun drain s =>
    match drain with
    | .awaiting batch attempt => some (s.failed o batch attempt error)
    | _ => none
  | .retries i => s.resume i fun drain s =>
    match drain with
    | .waiting batch attempt => some { s with stack := .sending batch attempt :: s.stack }
    | _ => none
  | .settles i => s.resume i fun drain s =>
    match drain with
    | .finished => some { s with inFlight := false }
    | _ => none

end CaptureQueue

/-- The runs of a queue. -/
def queueRuns {T : Type} (o : QueueOptions T) : TransitionSystem (CaptureQueue T) (QueueMove T) where
  init s := s = {}
  step s move s' := s.next o move = some s'

/-! ## Where the events are -/

/-- The event that a frame is about to push. -/
def QueueFrame.inHand {T : Type} : QueueFrame T → List (Captured T)
  | .capturing item => [item]
  | _ => []

/-- The batch that a frame is sending. -/
def QueueFrame.batch {T : Type} : QueueFrame T → List (Captured T)
  | .sending batch _ => batch
  | _ => []

/-- The dropped events that a frame has still to report. -/
def QueueFrame.unreported {T : Type} : QueueFrame T → List (Captured T)
  | .reporting rest _ => rest
  | _ => []

/-- The batch that a drain keeps. -/
def QueueDrain.batch {T : Type} : QueueDrain T → List (Captured T)
  | .awaiting batch _ | .waiting batch _ => batch
  | .finished => []

namespace CaptureQueue

variable {T : Type}

/-- The events of captures that wait for `onDrop`. -/
def inHand (s : CaptureQueue T) : List (Captured T) := s.stack.flatMap QueueFrame.inHand

/-- The batches in flight. -/
def batchesInFlight (s : CaptureQueue T) : List (Captured T) :=
  s.stack.flatMap QueueFrame.batch ++ s.drains.flatMap QueueDrain.batch

/-- The dropped events whose batch is being reported. -/
def unreported (s : CaptureQueue T) : List (Captured T) := s.stack.flatMap QueueFrame.unreported

/-- Every accepted event is in one place: about to be pushed, queued, in flight, sent or dropped;
the counters count them, `onDrop` is told of what is dropped, the queue keeps its bound, and
nothing is thrown at a caller. -/
structure Accounted (o : QueueOptions T) (s : CaptureQueue T) : Prop where
  distinct : s.accepted.Nodup
  placed : s.accepted.Perm
    (s.inHand ++ s.queue ++ s.batchesInFlight ++ s.resolved ++ s.discarded)
  sent : s.sent = s.resolved.length
  dropped : s.dropped = s.discarded.length
  reported : s.discarded.Perm (s.reported ++ s.unreported)
  bounded : s.queue.length ≤ o.maxQueue
  captures : s.threw = false
  flushes : s.rejected = false

/-- A move is made where the queue expects it: no hook but the sink throws, and the sink throws
something with a message; `onDrop` does not refill the queue it is called from; and the event that
is dropped for a new one is not `undefined`. -/
def Expected (o : QueueOptions T) (s : CaptureQueue T) : QueueMove T → Prop
  | .capture _ => s.closed = false → o.maxQueue ≤ s.queue.length →
    ∀ evicted ∈ s.queue.head?, o.isUndefined evicted.event = false
  | .returns => ∀ item ∈ s.stack.head?, item.inHand ≠ [] → s.queue.length < o.maxQueue
  | .throws error => error.readable = true ∧
    ∀ frame ∈ s.stack.head?, ∃ batch attempt, frame = .sending batch attempt
  | .rejects _ error => error.readable = true
  | _ => True

end CaptureQueue

end CoolSdk
