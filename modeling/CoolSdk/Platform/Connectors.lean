import CoolSdk.Core.Transition
import CoolSdk.Phala.CaptureQueue
import CoolSdk.Runtime.Doubles

/-!
# Running a connector

`runConnector` under any connector, any retries and any moment at which a timer fires or the
caller aborts. An iteration is a sequence of moves of its surroundings: items, an end, a throw,
an abort. Beside the variables of the runner a state keeps what each attempt has yielded and how
it ended. A run that reports itself complete has the whole output of an attempt that was not
aborted, and any other the items of one attempt, as long as no iteration ends quietly once its
signal is aborted and every error has a message.
-/

namespace CoolSdk

inductive ConnectorStatus
  | complete
  | partial_
  | unavailable
  | cancelled
  deriving DecidableEq, Repr

/-- What is reported of a run. -/
structure ConnectorRun (T : Type) where
  connector : String
  status : ConnectorStatus
  collected : List T
  errors : List String
  attempts : JsNumber
  deriving DecidableEq, Repr

/-- What a run is started with. How long its timers take is left to the moves. -/
structure RunOptions where
  connector : String
  retries : Option JsNumber := none
  deriving DecidableEq, Repr

/-- `options.retries ?? 2`. -/
def RunOptions.tries (o : RunOptions) : JsNumber := o.retries.getD (.ofInt 2)

/-- How the iteration of an attempt ended. -/
inductive AttemptEnd
  | returned
  | threw (error : HookError)
  /-- The runner threw on an item, as the signal was aborted. -/
  | interrupted
  deriving DecidableEq, Repr

/-- An attempt that is over: what the connector yielded, and whether the attempt's signal was
aborted before the iteration ended. -/
structure ConnectorAttempt (T : Type) where
  yielded : List T
  aborted : Bool
  ending : AttemptEnd
  deriving DecidableEq, Repr

/-- What the runner waits for. -/
inductive RunnerPhase (T : Type)
  /-- The next item, or the end of the iteration. -/
  | iterating
  /-- The iterator it closes. -/
  | closing
  /-- The timer of the backoff. -/
  | waiting
  /-- Its promise is fulfilled. -/
  | reported (run : ConnectorRun T)
  /-- Its promise is rejected. -/
  | rejected
  deriving DecidableEq, Repr

/-- A runner between two moves: its variables, and the attempts that are over. -/
structure Runner (T : Type) where
  /-- Whether the caller's signal is aborted, where one was given. -/
  signal : Option Bool
  attempt : Nat := 1
  /-- Whether the signal of the attempt is aborted. -/
  aborted : Bool := false
  batch : List T := []
  collected : List T := []
  errors : List String := []
  phase : RunnerPhase T := .iterating
  yielded : List T := []
  history : List (ConnectorAttempt T) := []
  deriving DecidableEq, Repr

/-- What the surroundings of a runner do. -/
inductive ConnectorMove (T : Type)
  | yields (item : T)
  | returns
  | throws (error : HookError)
  /-- The iterator is closed. -/
  | closes
  /-- The timer of the attempt fires. -/
  | timesOut
  /-- The caller aborts its signal. -/
  | aborts
  /-- The timer of the backoff fires. -/
  | wakes
  deriving DecidableEq, Repr

namespace Runner

variable {T : Type} (o : RunOptions)

/-- Report the items collected so far. -/
def report (status : ConnectorStatus) (attempts : JsNumber) (s : Runner T) : Runner T :=
  { s with
    phase := .reported
      { connector := o.connector, status, collected := s.collected, errors := s.errors,
        attempts } }

/-- The head of the loop over attempts. -/
def proceed (s : Runner T) : Runner T :=
  if (JsNumber.ofInt s.attempt).le (o.tries.addRounded (.ofInt 1)) then
    if s.signal = some true then s.report o .cancelled (.ofInt (s.attempt - 1))
    else { s with phase := .iterating, aborted := false, batch := [], yielded := [] }
  else
    s.report o (if s.collected = [] then .unavailable else .partial_)
      (o.tries.addRounded (.ofInt 1))

/-- A run at its start. -/
def start (signal : Option Bool) : Runner T := proceed o { signal }

/-- The next attempt. -/
def again (s : Runner T) : Runner T :=
  proceed o { s with attempt := JsNumber.nearestDouble (s.attempt + 1) }

/-- The iteration of the attempt is over. -/
def ended (ending : AttemptEnd) (s : Runner T) : Runner T :=
  { s with history := s.history ++ [{ yielded := s.yielded, aborted := s.aborted, ending }] }

/-- Note an error, and keep the longer batch. -/
def note (message : String) (s : Runner T) : Runner T :=
  { s with
    errors := s.errors ++ ["attempt " ++ toString s.attempt ++ ": " ++ message]
    collected := if s.collected.length < s.batch.length then s.batch else s.collected }

/-- Once an error is noted, the run is cancelled, waits to retry, or goes on at once. -/
def settle (s : Runner T) : Runner T :=
  if s.signal = some true then s.report o .cancelled (.ofInt s.attempt)
  else if (JsNumber.ofInt s.attempt).le o.tries then { s with phase := .waiting }
  else s.again o

/-- The catch around an iteration, with the message of what was thrown. -/
def failed (message : String) (s : Runner T) : Runner T := (s.note message).settle o

/-- The connector throws. Where the message cannot be read, so does the catch. -/
def throws (error : HookError) (s : Runner T) : Runner T :=
  if error.readable then s.failed o (error.message.getD "undefined")
  else { s with phase := .rejected }

/-- An item arrives. -/
def receive (item : T) (s : Runner T) : Runner T :=
  let s := { s with yielded := s.yielded ++ [item] }
  if s.aborted then { s.ended .interrupted with phase := .closing }
  else { s with batch := s.batch ++ [item] }

/-- The iteration ends without an error. -/
def returns (s : Runner T) : Runner T :=
  report o .complete (.ofInt s.attempt) { s.ended .returned with collected := s.batch }

/-- The caller aborts its signal; the runner listens while an attempt runs. -/
def abort (s : Runner T) : Option (Runner T) :=
  s.signal.map fun _ =>
    match s.phase with
    | .iterating | .closing => { s with signal := some true, aborted := true }
    | _ => { s with signal := some true }

/-- The runner after a move that can be made. -/
def next (s : Runner T) (move : ConnectorMove T) : Option (Runner T) :=
  match s.phase, move with
  | .iterating, .yields item => some (s.receive item)
  | .iterating, .returns => some (s.returns o)
  | .iterating, .throws error => some ((s.ended (.threw error)).throws o error)
  | .closing, .closes => some (s.failed o "timed out or cancelled")
  | .iterating, .timesOut | .closing, .timesOut => some { s with aborted := true }
  | .waiting, .wakes => some (s.again o)
  | _, .aborts => s.abort
  | _, _ => none

end Runner

/-- The runs of a connector, with or without a signal of the caller. -/
def connectorRuns (T : Type) (o : RunOptions) :
    TransitionSystem (Runner T) (ConnectorMove T) where
  init s := ∃ signal, s = Runner.start o signal
  step s move s' := s.next o move = some s'

/-! ## Whole runs -/

variable {T : Type}

/-- The iteration does not end quietly once its signal is aborted, and what it throws has a
message. -/
structure ConnectorAttempt.Orderly (a : ConnectorAttempt T) : Prop where
  whole : a.ending = .returned → a.aborted = false
  readable : ∀ error, a.ending = .threw error → error.readable = true

/-- An orderly attempt another may follow. -/
structure ConnectorAttempt.Retried (a : ConnectorAttempt T) : Prop where
  orderly : a.Orderly
  not_returned : a.ending ≠ .returned

namespace Runner

variable {o : RunOptions} {s s' : Runner T}

/-- Items of a single attempt. -/
def FromOne (s : Runner T) (items : List T) : Prop :=
  items = [] ∨ ∃ a ∈ s.history, items <+: a.yielded

/-- What is asked of a run: it is reported; complete only with all that one attempt yielded that
was not aborted before its iteration ended, and otherwise with items of a single attempt. -/
def Honest (s : Runner T) : Prop :=
  match s.phase with
  | .reported run =>
    (run.status = .complete →
      ∃ a ∈ s.history, a.ending = .returned ∧ a.aborted = false ∧ run.collected = a.yielded) ∧
    (run.status ≠ .complete → s.FromOne run.collected)
  | .rejected => False
  | _ => True

/-- What the variables of a runner stand for as long as it is not settled. -/
structure Underway (s : Runner T) : Prop where
  collected : s.FromOne s.collected
  retried : ∀ a ∈ s.history, a.Retried

def Accounted (s : Runner T) : Prop :=
  match s.phase with
  | .iterating => s.Underway ∧ s.batch = s.yielded
  | .closing => s.Underway ∧ s.FromOne s.batch
  | .waiting => s.Underway
  | .reported _ | .rejected => s.Honest ↔ ∀ a ∈ s.history, a.Orderly

theorem FromOne.mono {items : List T} (h : s.FromOne items)
    (hsub : ∀ a ∈ s.history, a ∈ s'.history) : s'.FromOne items := by
  rcases h with rfl | ⟨a, ha, hpre⟩
  · exact .inl rfl
  · exact .inr ⟨a, hsub a ha, hpre⟩

theorem Underway.honest_iff (h : s.Underway) (hhonest : s.Honest) :
    s.Honest ↔ ∀ a ∈ s.history, a.Orderly :=
  iff_of_true hhonest fun a ha => (h.retried a ha).orderly

/-! ### Reports -/

theorem Underway.report {status : ConnectorStatus} {attempts : JsNumber} (h : s.Underway)
    (hstatus : status ≠ .complete) : (s.report o status attempts).Accounted := by
  apply iff_of_true
  · exact ⟨fun hcomplete => absurd hcomplete hstatus, fun _ => h.collected⟩
  · intro a ha
    exact (h.retried a ha).orderly

theorem Underway.proceed (h : s.Underway) : (s.proceed o).Accounted := by
  rw [Runner.proceed]
  split_ifs with htry hsignal hnone
  · exact h.report (by decide)
  · exact ⟨⟨h.collected, h.retried⟩, rfl⟩
  · exact h.report (by decide)
  · exact h.report (by decide)

theorem Underway.again (h : s.Underway) : (s.again o).Accounted :=
  proceed (s := { s with attempt := _ }) ⟨h.collected, h.retried⟩

theorem Underway.settle (h : s.Underway) : (s.settle o).Accounted := by
  rw [Runner.settle]
  split_ifs with hsignal htry
  · exact h.report (by decide)
  · exact ⟨h.collected, h.retried⟩
  · exact h.again

theorem Underway.failed {message : String} (h : s.Underway) (hbatch : s.FromOne s.batch) :
    (s.failed o message).Accounted := by
  have hnoted : (s.note message).Underway := by
    refine ⟨?_, h.retried⟩
    show s.FromOne (if s.collected.length < s.batch.length then s.batch else s.collected)
    split_ifs
    · exact hbatch
    · exact h.collected
  exact hnoted.settle

/-! ### Attempts -/

/-- The attempts of a run once another is over. -/
theorem mem_ended {a : ConnectorAttempt T} {ending : AttemptEnd} (s : Runner T) :
    a ∈ (s.ended ending).history ↔
      a ∈ s.history ∨ a = { yielded := s.yielded, aborted := s.aborted, ending } := by
  rw [ended, List.mem_append, List.mem_singleton]

theorem Underway.ended (h : s.Underway) (ending : AttemptEnd)
    (hthrew : ∀ error, ending = .threw error → error.readable = true)
    (hreturned : ending ≠ .returned) : (s.ended ending).Underway where
  collected := h.collected.mono fun a ha => (mem_ended s).mpr (.inl ha)
  retried a ha := by
    rcases (mem_ended s).mp ha with ha | rfl
    · exact h.retried a ha
    · exact ⟨⟨fun heq => absurd heq hreturned, hthrew⟩, hreturned⟩

theorem fromOne_ended {ending : AttemptEnd} {items : List T} (h : items <+: s.yielded) :
    (s.ended ending).FromOne items :=
  .inr ⟨_, (mem_ended s).mpr (.inr rfl), h⟩

theorem Underway.receive {item : T} (h : s.Underway) (hphase : s.phase = .iterating)
    (hbatch : s.batch = s.yielded) : (s.receive item).Accounted := by
  rw [Runner.receive]
  dsimp only
  by_cases haborted : s.aborted = true
  · rw [if_pos haborted]
    have hyielded : Underway { s with yielded := s.yielded ++ [item] } := ⟨h.collected, h.retried⟩
    have hover := hyielded.ended .interrupted (fun _ heq => by cases heq) (by decide)
    refine ⟨⟨hover.collected, hover.retried⟩, fromOne_ended ?_⟩
    rw [hbatch]
    exact List.prefix_append _ _
  · rw [if_neg haborted]
    simp only [Accounted, hphase]
    exact ⟨⟨h.collected, h.retried⟩, congrArg (· ++ [item]) hbatch⟩

/-- An iteration that ends without an error is reported honestly exactly if it was not aborted. -/
theorem Underway.returns (h : s.Underway) (hbatch : s.batch = s.yielded) :
    (s.returns o).Accounted := by
  have hhonest : (s.returns o).Honest ↔ s.aborted = false := by
    constructor
    · intro hreport
      obtain ⟨a, ha, hreturned, haborted, _⟩ := hreport.1 rfl
      rcases (mem_ended s).mp ha with ha | rfl
      · exact absurd hreturned (h.retried a ha).not_returned
      · exact haborted
    · intro haborted
      exact ⟨fun _ => ⟨_, (mem_ended s).mpr (.inr rfl), rfl, haborted, hbatch⟩,
        fun hstatus => absurd rfl hstatus⟩
  have horderly : (∀ a ∈ (s.returns o).history, a.Orderly) ↔ s.aborted = false := by
    constructor
    · intro hall
      exact (hall _ ((mem_ended s).mpr (.inr rfl))).whole rfl
    · intro haborted a ha
      rcases (mem_ended s).mp ha with ha | rfl
      · exact (h.retried a ha).orderly
      · exact ⟨fun _ => haborted, fun _ heq => by cases heq⟩
  exact hhonest.trans horderly.symm

/-- A throw is caught, unless it has no message. -/
theorem Underway.throws {error : HookError} (h : s.Underway) (hbatch : s.batch = s.yielded) :
    ((s.ended (.threw error)).throws o error).Accounted := by
  rw [Runner.throws]
  by_cases hreadable : error.readable = true
  · rw [if_pos hreadable]
    apply Underway.failed
    · apply h.ended
      · rintro _ ⟨⟩
        exact hreadable
      · intro heq
        cases heq
    · apply fromOne_ended
      rw [← hbatch]
      exact List.prefix_rfl
  · rw [if_neg hreadable]
    apply iff_of_false id
    intro hall
    exact hreadable ((hall _ ((mem_ended s).mpr (.inr rfl))).readable error rfl)

/-! ### Runs -/

/-- What a caller's abort changes is not accounted for. -/
theorem accounted_abort (h : s.Accounted) (habort : s.abort = some s') : s'.Accounted := by
  rw [abort, Option.map_eq_some_iff] at habort
  obtain ⟨flag, _, rfl⟩ := habort
  cases hphase : s.phase <;> simp only [Accounted, hphase] at h ⊢
  · exact ⟨⟨h.1.collected, h.1.retried⟩, h.2⟩
  · exact ⟨⟨h.1.collected, h.1.retried⟩, h.2⟩
  · exact ⟨h.collected, h.retried⟩
  · simp only [Honest, hphase] at h ⊢
    exact h
  · simp only [Honest, hphase] at h ⊢
    exact h

/-- One move keeps the account. -/
theorem accounted_next {move : ConnectorMove T} (h : s.Accounted)
    (hnext : s.next o move = some s') : s'.Accounted := by
  unfold next at hnext
  split at hnext
  case h_1 item hphase =>
    cases hnext
    simp only [Accounted, hphase] at h
    exact h.1.receive hphase h.2
  case h_2 hphase =>
    cases hnext
    simp only [Accounted, hphase] at h
    exact h.1.returns h.2
  case h_3 error hphase =>
    cases hnext
    simp only [Accounted, hphase] at h
    exact h.1.throws h.2
  case h_4 hphase =>
    cases hnext
    simp only [Accounted, hphase] at h
    exact h.1.failed h.2
  case h_5 hphase =>
    cases hnext
    simp only [Accounted, hphase] at h ⊢
    exact ⟨⟨h.1.collected, h.1.retried⟩, h.2⟩
  case h_6 hphase =>
    cases hnext
    simp only [Accounted, hphase] at h ⊢
    exact ⟨⟨h.1.collected, h.1.retried⟩, h.2⟩
  case h_7 hphase =>
    cases hnext
    simp only [Accounted, hphase] at h
    exact h.again
  case h_8 => exact accounted_abort h hnext
  case h_9 => cases hnext

theorem accounted_of_reachable (h : (connectorRuns T o).Reachable s) : s.Accounted := by
  refine h.invariant ?_ ?_
  · rintro _ ⟨signal, rfl⟩
    apply Underway.proceed
    exact ⟨.inl rfl, fun a ha => absurd ha List.not_mem_nil⟩
  · intro s move s' hs hstep
    exact accounted_next hs hstep

/-- A run is reported honestly exactly if none of its attempts ended quietly after an abort or
threw what has no message. -/
theorem never_truncated_iff (h : (connectorRuns T o).Reachable s) :
    s.Honest ↔ ∀ a ∈ s.history, a.Orderly := by
  have haccounted := accounted_of_reachable h
  cases hphase : s.phase <;> simp only [Accounted, hphase] at haccounted
  · exact haccounted.1.honest_iff (by simp only [Honest, hphase])
  · exact haccounted.1.honest_iff (by simp only [Honest, hphase])
  · exact haccounted.honest_iff (by simp only [Honest, hphase])
  · exact haccounted
  · exact haccounted

/-! ### Attempts are bounded -/

/-- The attempts of a run with so many retries, counted. -/
def Counted (n : Nat) (s : Runner T) : Prop :=
  match s.phase with
  | .iterating => s.attempt = s.history.length + 1 ∧ s.history.length ≤ n
  | .closing => s.attempt = s.history.length ∧ s.history.length ≤ n + 1
  | .waiting => s.attempt = s.history.length ∧ s.history.length ≤ n
  | .reported _ | .rejected => s.history.length ≤ n + 1

theorem length_ended (ending : AttemptEnd) (s : Runner T) :
    (s.ended ending).history.length = s.history.length + 1 := by
  rw [ended, List.length_append, List.length_singleton]

variable {n : Nat}

theorem tries_add_one (hn : n + 2 < 2 ^ 53) (htries : o.tries = .ofInt n) :
    o.tries.addRounded (.ofInt 1) = .ofInt ((n + 1 : Nat) : Int) := by
  have hround := JsNumber.round_halved (show n + 1 < 2 ^ 53 by omega) (Nat.zero_le 1000)
  rw [pow_zero, div_one] at hround
  have hsum : ((n : Int) : ℚ) + ((1 : Int) : ℚ) = ((n + 1 : Nat) : ℚ) := by
    push_cast
    rfl
  have hpos : ((n + 1 : Nat) : ℚ) ≠ 0 := Nat.cast_ne_zero.mpr (Nat.succ_ne_zero n)
  rw [htries, JsNumber.ofInt, JsNumber.ofInt, JsNumber.addRounded, hsum, if_neg hpos, hround]
  rfl

theorem counted_proceed (hn : n + 2 < 2 ^ 53) (htries : o.tries = .ofInt n)
    (hattempt : s.attempt = s.history.length + 1) (hle : s.history.length ≤ n + 1) :
    (s.proceed o).Counted n := by
  have htest : (JsNumber.ofInt s.attempt).le (o.tries.addRounded (.ofInt 1)) = true ↔
      s.attempt ≤ n + 1 := by
    rw [tries_add_one hn htries, JsNumber.le_ofInt, decide_eq_true_eq, Int.ofNat_le]
  rw [proceed]
  split_ifs with htry hsignal hnone
  · exact hle
  · have hlast : s.attempt ≤ n + 1 := htest.mp htry
    have hbound : s.history.length ≤ n := by omega
    exact ⟨hattempt, hbound⟩
  · exact hle
  · exact hle

theorem counted_again (hn : n + 2 < 2 ^ 53) (htries : o.tries = .ofInt n)
    (hattempt : s.attempt = s.history.length) (hle : s.history.length ≤ n + 1) :
    (s.again o).Counted n := by
  have hround : JsNumber.nearestDouble (s.attempt + 1) = s.attempt + 1 :=
    JsNumber.nearestDouble_of_lt (by omega)
  apply counted_proceed hn htries
  · rw [hround, hattempt]
  · exact hle

theorem counted_failed {message : String} (hn : n + 2 < 2 ^ 53) (htries : o.tries = .ofInt n)
    (hattempt : s.attempt = s.history.length) (hle : s.history.length ≤ n + 1) :
    (s.failed o message).Counted n := by
  have htest : (JsNumber.ofInt s.attempt).le o.tries = true ↔ s.attempt ≤ n := by
    rw [htries, JsNumber.le_ofInt, decide_eq_true_eq, Int.ofNat_le]
  rw [failed, settle]
  split_ifs with hsignal htry
  · exact hle
  · have hretry : s.attempt ≤ n := htest.mp htry
    have hbound : s.history.length ≤ n := by omega
    exact ⟨hattempt, hbound⟩
  · exact counted_again hn htries hattempt hle

theorem counted_next {move : ConnectorMove T} (hn : n + 2 < 2 ^ 53) (htries : o.tries = .ofInt n)
    (h : s.Counted n) (hnext : s.next o move = some s') : s'.Counted n := by
  unfold next at hnext
  split at hnext
  case h_1 item hphase =>
    cases hnext
    simp only [Counted, hphase] at h
    rw [receive]
    dsimp only
    by_cases haborted : s.aborted = true
    · rw [if_pos haborted]
      have hlen := length_ended .interrupted { s with yielded := s.yielded ++ [item] }
      exact ⟨h.1.trans hlen.symm, hlen.trans_le (Nat.succ_le_succ h.2)⟩
    · rw [if_neg haborted]
      simp only [Counted, hphase]
      exact h
  case h_2 hphase =>
    cases hnext
    simp only [Counted, hphase] at h
    exact (length_ended .returned s).trans_le (by omega)
  case h_3 error hphase =>
    cases hnext
    simp only [Counted, hphase] at h
    have hlen := length_ended (.threw error) s
    rw [throws]
    by_cases hreadable : error.readable = true
    · rw [if_pos hreadable]
      exact counted_failed hn htries (h.1.trans hlen.symm) (hlen.trans_le (by omega))
    · rw [if_neg hreadable]
      exact hlen.trans_le (by omega)
  case h_4 hphase =>
    cases hnext
    simp only [Counted, hphase] at h
    exact counted_failed hn htries h.1 h.2
  case h_5 hphase =>
    cases hnext
    simp only [Counted, hphase] at h ⊢
    exact h
  case h_6 hphase =>
    cases hnext
    simp only [Counted, hphase] at h ⊢
    exact h
  case h_7 hphase =>
    cases hnext
    simp only [Counted, hphase] at h
    exact counted_again hn htries h.1 (by omega)
  case h_8 =>
    rw [abort, Option.map_eq_some_iff] at hnext
    obtain ⟨flag, _, rfl⟩ := hnext
    cases hphase : s.phase <;> simp only [Counted, hphase] at h ⊢ <;> exact h
  case h_9 => cases hnext

/-- A run makes one attempt more than there are retries, at most. -/
theorem attempts_le (hn : n + 2 < 2 ^ 53) (htries : o.tries = .ofInt n)
    (h : (connectorRuns T o).Reachable s) : s.history.length ≤ n + 1 := by
  have hcounted : s.Counted n := by
    refine h.invariant ?_ ?_
    · rintro _ ⟨signal, rfl⟩
      exact counted_proceed hn htries rfl (Nat.zero_le _)
    · intro s move s' hs hstep
      exact counted_next hn htries hs hstep
  cases hphase : s.phase <;> simp only [Counted, hphase] at hcounted
  · exact hcounted.2.trans (Nat.le_succ n)
  · exact hcounted.2
  · exact hcounted.2.trans (Nat.le_succ n)
  · exact hcounted
  · exact hcounted

/-- A run as its moves make it. -/
def after (o : RunOptions) (signal : Option Bool) (moves : List (ConnectorMove T)) :
    Option (Runner T) :=
  moves.foldlM (fun s move => if True then s.next o move else none) (start o signal)

theorem reachable_after {signal : Option Bool} {moves : List (ConnectorMove T)}
    (h : after o signal moves = some s) : (connectorRuns T o).Reachable s :=
  .foldlM (fun _ _ _ hstep => hstep) (.start ⟨signal, rfl⟩) h

theorem never_truncated_iff_whole : ∃ s : Runner Nat,
    s.phase = .reported
      { connector := "git", status := .complete, collected := [1], errors := [],
        attempts := .ofInt 1 } ∧
      (s.Honest ↔ ∀ a ∈ s.history, a.Orderly) := by
  have hrun : after { connector := "git" } none [.yields 1, .returns] = some
      { signal := none, batch := [1], collected := [1], yielded := [1]
        phase := .reported
          { connector := "git", status := .complete, collected := [1], errors := [],
            attempts := .ofInt 1 }
        history := [{ yielded := [1], aborted := false, ending := .returned }] } := by
    decide +kernel
  exact ⟨_, rfl, never_truncated_iff (reachable_after hrun)⟩

/-- The attempt times out after an item, the connector stops, and the run is complete. -/
theorem quiet_stop_complete : ∃ s : Runner Nat,
    (connectorRuns Nat { connector := "git" }).Reachable s ∧
      s.phase = .reported
        { connector := "git", status := .complete, collected := [1], errors := [],
          attempts := .ofInt 1 } ∧
      s.history = [{ yielded := [1], aborted := true, ending := .returned }] ∧ ¬s.Honest := by
  have hrun : after { connector := "git" } none [.yields 1, .timesOut, .returns] = some
      { signal := none, aborted := true, batch := [1], collected := [1], yielded := [1]
        phase := .reported
          { connector := "git", status := .complete, collected := [1], errors := [],
            attempts := .ofInt 1 }
        history := [{ yielded := [1], aborted := true, ending := .returned }] } := by
    decide +kernel
  refine ⟨_, reachable_after hrun, rfl, rfl, ?_⟩
  rintro ⟨hcomplete, _⟩
  obtain ⟨a, ha, _, haborted, _⟩ := hcomplete rfl
  obtain rfl : a = { yielded := [1], aborted := true, ending := .returned } :=
    List.mem_singleton.mp ha
  cases haborted

end Runner

end CoolSdk
