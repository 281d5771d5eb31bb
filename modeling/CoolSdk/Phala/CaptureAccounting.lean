import CoolSdk.Phala.CaptureQueue
import Mathlib.Data.List.Perm.Lattice

/-!
# Capture accounting

Within a move an event may be between two places, and a dropped batch between its count and its
reports. Each part of a move takes what is in between to where it belongs, so every expected move
keeps the accounts.
-/

namespace CoolSdk.CaptureQueue

variable {T : Type}

/-- The accounts within a move: some events are in no place yet, and some dropped ones are not on
their way to `onDrop` yet. -/
structure Ledger (o : QueueOptions T) (limbo owed : List (Captured T)) (s : CaptureQueue T) :
    Prop where
  numbered : ∀ item ∈ s.accepted, item.id < s.accepted.length
  distinct : s.accepted.Nodup
  placed : s.accepted.Perm
    (limbo ++ (s.inHand ++ s.queue ++ s.batchesInFlight ++ s.resolved ++ s.discarded))
  sent : s.sent = s.resolved.length
  dropped : s.dropped = s.discarded.length
  reported : s.discarded.Perm (owed ++ (s.reported ++ s.unreported))
  bounded : s.queue.length ≤ o.maxQueue
  captures : s.threw = false
  flushes : s.rejected = false

theorem Ledger.accounted {o : QueueOptions T} {s : CaptureQueue T} (h : Ledger o [] [] s) :
    s.Accounted o :=
  ⟨h.distinct, h.placed, h.sent, h.dropped, h.reported, h.bounded, h.captures, h.flushes⟩

section

variable {o : QueueOptions T} {limbo owed : List (Captured T)} {s : CaptureQueue T}

/-- Events may be moved between places, and counters with them. -/
private theorem Ledger.move {limbo' owed' : List (Captured T)} {s' : CaptureQueue T}
    (h : Ledger o limbo owed s) (haccepted : s'.accepted = s.accepted)
    (hplaced : ∀ [DecidableEq (Captured T)], ∀ a,
      (limbo' ++ (s'.inHand ++ s'.queue ++ s'.batchesInFlight ++ s'.resolved ++ s'.discarded)).count
          a =
        (limbo ++ (s.inHand ++ s.queue ++ s.batchesInFlight ++ s.resolved ++ s.discarded)).count a)
    (hsent : s'.sent + s.resolved.length = s.sent + s'.resolved.length)
    (hdropped : s'.dropped + s.discarded.length = s.dropped + s'.discarded.length)
    (hreported : ∀ [DecidableEq (Captured T)], ∀ a,
      (owed' ++ (s'.reported ++ s'.unreported)).count a + s.discarded.count a =
        (owed ++ (s.reported ++ s.unreported)).count a + s'.discarded.count a)
    (hbounded : s'.queue.length ≤ o.maxQueue) (hcaptures : s'.threw = s.threw)
    (hflushes : s'.rejected = s.rejected) : Ledger o limbo' owed' s' := by
  classical
  refine ⟨haccepted ▸ h.numbered, haccepted ▸ h.distinct, ?_, ?_, ?_, ?_, hbounded,
    hcaptures ▸ h.captures, hflushes ▸ h.flushes⟩
  · rw [haccepted]
    refine h.placed.trans (List.perm_iff_count.mpr fun a => ?_)
    exact (hplaced a).symm
  · have := h.sent
    omega
  · have := h.dropped
    omega
  · refine List.perm_iff_count.mpr fun a => ?_
    have := h.reported.count_eq a
    have := hreported a
    omega

/-- What a drain keeps is in flight while it waits. -/
theorem Ledger.suspend (drain : QueueDrain T) (h : Ledger o (drain.batch ++ limbo) owed s) :
    Ledger o limbo owed (s.suspend drain) := by
  unfold CaptureQueue.suspend
  split
  · rename_i stack hstack
    refine h.move rfl (fun a => ?_) rfl rfl (fun a => ?_) h.bounded rfl rfl
    · simp only [inHand, batchesInFlight, hstack, List.flatMap_append, List.flatMap_cons,
        List.flatMap_nil, QueueFrame.inHand, QueueFrame.batch, List.count_append, List.count_nil]
      omega
    · simp only [unreported, hstack, List.flatMap_cons, QueueFrame.unreported, List.nil_append]
  · refine h.move rfl (fun a => ?_) rfl rfl (fun a => rfl) h.bounded rfl rfl
    simp only [inHand, batchesInFlight, List.flatMap_append, List.flatMap_cons, List.flatMap_nil,
      List.count_append, List.count_nil]
    omega

/-- A batch that is taken is in flight. -/
theorem Ledger.loop (h : Ledger o limbo owed s) : Ledger o limbo owed (s.loop o) := by
  unfold CaptureQueue.loop
  split_ifs
  · exact Ledger.suspend .finished h
  · refine h.move rfl (fun a => ?_) rfl rfl (fun a => rfl) ?_ rfl rfl
    · have hsplit := congrArg (List.count a) (List.take_append_drop o.batchSize s.queue)
      rw [List.count_append] at hsplit
      simp only [inHand, batchesInFlight, List.flatMap_cons, QueueFrame.inHand, QueueFrame.batch,
        List.count_append, List.nil_append]
      omega
    · have := h.bounded
      rw [List.length_drop]
      omega

/-- The dropped events that are next for `onDrop` are on their way there. -/
theorem Ledger.report {events : List (Captured T)} {reason : String}
    (h : Ledger o limbo (events ++ owed) s) : Ledger o limbo owed (s.report o events reason) := by
  cases events with
  | nil => exact h.loop
  | cons event rest =>
    refine h.move rfl (fun a => ?_) rfl rfl (fun a => ?_) h.bounded rfl rfl
    · simp only [CaptureQueue.report, inHand, batchesInFlight, List.flatMap_cons, QueueFrame.inHand,
        QueueFrame.batch, List.nil_append]
    · simp only [CaptureQueue.report, unreported, List.flatMap_cons, QueueFrame.unreported,
        List.count_append, List.count_cons, List.count_nil, List.cons_append]
      omega

/-- A batch whose send failed waits, or is dropped. -/
theorem Ledger.failed {batch : List (Captured T)} {attempt : Nat} {error : HookError}
    (h : Ledger o batch [] s) (hreadable : error.readable = true) :
    Ledger o [] [] (s.failed o batch attempt error) := by
  unfold CaptureQueue.failed
  rw [if_pos hreadable]
  split_ifs
  · refine Ledger.report (h.move rfl (fun a => ?_) rfl ?_ (fun a => ?_) h.bounded rfl rfl)
    · simp only [inHand, batchesInFlight, List.count_append, List.nil_append]
      omega
    · simp only [List.length_append]
      omega
    · simp only [unreported, List.count_append, List.append_nil, List.nil_append]
      omega
  · refine Ledger.suspend (.waiting batch (attempt + 1)) ?_
    refine h.move rfl (fun a => ?_) rfl rfl (fun a => rfl) h.bounded rfl rfl
    simp only [QueueDrain.batch, inHand, batchesInFlight, List.append_nil]

/-- A batch whose send resolved is sent. -/
theorem Ledger.delivered {batch : List (Captured T)} {attempt : Nat} (h : Ledger o batch [] s) :
    Ledger o [] [] (s.delivered batch attempt) := by
  refine h.move rfl (fun a => ?_) ?_ rfl (fun a => ?_) h.bounded rfl rfl
  · simp only [CaptureQueue.delivered, inHand, batchesInFlight, List.flatMap_cons, QueueFrame.inHand,
      QueueFrame.batch, List.count_append, List.nil_append]
    omega
  · simp only [CaptureQueue.delivered, List.length_append]
    omega
  · simp only [CaptureQueue.delivered, unreported, List.flatMap_cons, QueueFrame.unreported,
      List.nil_append]

/-- An event is pushed where there is room. -/
theorem Ledger.push {item : Captured T} (h : Ledger o (item :: limbo) owed s)
    (hroom : s.queue.length < o.maxQueue) : Ledger o limbo owed (s.push item) := by
  refine h.move rfl (fun a => ?_) rfl rfl (fun a => rfl) ?_ rfl rfl
  · simp only [CaptureQueue.push, inHand, batchesInFlight, List.count_append, List.count_cons,
      List.count_nil, List.cons_append]
    omega
  · rw [CaptureQueue.push, List.length_append, List.length_singleton]
    exact hroom

theorem Ledger.flush (h : Ledger o [] [] s) : Ledger o [] [] (s.flush o) := by
  unfold CaptureQueue.flush
  split_ifs
  · exact h
  · exact Ledger.loop (h.move rfl (fun a => rfl) rfl rfl (fun a => rfl) h.bounded rfl rfl)

/-- The frame on top of the stack is popped, and what it holds is in no place. -/
theorem Ledger.pop {frame : QueueFrame T} {stack : List (QueueFrame T)} (h : Ledger o [] [] s)
    (hstack : s.stack = frame :: stack) :
    Ledger o (frame.inHand ++ frame.batch) frame.unreported { s with stack } := by
  refine h.move rfl (fun a => ?_) rfl rfl (fun a => ?_) h.bounded rfl rfl
  · simp only [inHand, batchesInFlight, hstack, List.flatMap_cons, List.count_append,
      List.nil_append]
    omega
  · simp only [unreported, hstack, List.flatMap_cons, List.count_append, List.nil_append]
    omega

/-- A drain goes on, and what it keeps is in no place. -/
theorem Ledger.take {i : Nat} {drain : QueueDrain T} (h : Ledger o [] [] s)
    (hdrain : s.drains[i]? = some drain) :
    Ledger o drain.batch [] { s with drains := s.drains.eraseIdx i } := by
  obtain ⟨hi, rfl⟩ := List.getElem?_eq_some_iff.mp hdrain
  refine h.move rfl (fun a => ?_) rfl rfl (fun a => rfl) h.bounded rfl rfl
  have hperm := ((List.getElem_cons_eraseIdx_perm hi).flatMap_right QueueDrain.batch).count_eq a
  rw [List.flatMap_cons, List.count_append] at hperm
  simp only [inHand, batchesInFlight, List.count_append, List.nil_append]
  omega

/-! ## Moves -/

/-- A new event is accepted, and in no place yet. -/
theorem Ledger.accept (h : Ledger o [] [] s) (event : T) :
    Ledger o [{ id := s.accepted.length, event }] []
      { s with accepted := s.accepted ++ [{ id := s.accepted.length, event }] } := by
  refine ⟨fun item hitem => ?_, ?_, ?_, h.sent, h.dropped, h.reported, h.bounded, h.captures,
    h.flushes⟩
  · rw [List.length_append, List.length_singleton]
    rcases List.mem_append.mp hitem with hitem | hitem
    · exact Nat.lt_succ_of_lt (h.numbered item hitem)
    · rw [List.mem_singleton.mp hitem]
      exact Nat.lt_succ_self _
  · rw [List.nodup_append]
    refine ⟨h.distinct, List.nodup_singleton _, fun item hitem item' hitem' => ?_⟩
    rw [List.mem_singleton] at hitem'
    rintro rfl
    have := h.numbered item hitem
    rw [hitem'] at this
    exact Nat.lt_irrefl _ this
  · exact (h.placed.append_right _).trans List.perm_append_comm

theorem Ledger.capture (hqueue : 1 ≤ o.maxQueue) (h : Ledger o [] [] s) {event : T}
    (hexpected : s.Expected o (.capture event)) : Ledger o [] [] (s.capture o event) := by
  have haccepted := h.accept event
  unfold CaptureQueue.capture
  split_ifs with hclosed
  · exact h
  · rw [Bool.not_eq_true] at hclosed
    by_cases hfull : o.maxQueue ≤ s.queue.length
    · obtain ⟨evicted, queue, hcons⟩ : ∃ evicted queue, s.queue = evicted :: queue :=
        List.exists_cons_of_length_pos (Nat.lt_of_lt_of_le hqueue hfull)
      have hbounded := h.bounded
      have hdefined := hexpected hclosed hfull evicted (by rw [hcons]; rfl)
      rw [hcons] at hfull hbounded
      rw [List.length_cons] at hbounded
      simp only [hcons, if_pos hfull, hdefined, Bool.false_eq_true, if_false]
      refine haccepted.move rfl (fun a => ?_) rfl ?_ (fun a => ?_) (Nat.le_of_succ_le hbounded) rfl
        rfl
      · simp only [inHand, batchesInFlight, hcons, List.flatMap_cons, QueueFrame.inHand,
          QueueFrame.batch, List.count_append, List.count_cons, List.count_nil, List.nil_append,
          List.cons_append]
        omega
      · simp only [List.length_append, List.length_singleton]
        omega
      · simp only [unreported, List.flatMap_cons, QueueFrame.unreported, List.count_append,
          List.count_cons, List.count_nil, List.nil_append]
        omega
    · simp only [if_neg hfull]
      exact haccepted.push (Nat.lt_of_not_le hfull)

theorem Ledger.returns {s' : CaptureQueue T} (h : Ledger o [] [] s)
    (hexpected : s.Expected o .returns) (hs : s.returns o = some s') : Ledger o [] [] s' := by
  unfold CaptureQueue.returns at hs
  split at hs
  · rename_i item stack hstack
    cases hs
    have hroom := hexpected (.capturing item) (by rw [hstack]; rfl) (List.cons_ne_nil _ _)
    exact Ledger.push (h.pop hstack) hroom
  · rename_i batch attempt stack hstack
    cases hs
    refine Ledger.suspend (.awaiting batch attempt) ?_
    rw [List.append_nil]
    exact h.pop hstack
  · rename_i batch attempt stack hstack
    cases hs
    exact Ledger.loop (h.pop hstack)
  · rename_i rest reason stack hstack
    cases hs
    refine Ledger.report ?_
    rw [List.append_nil]
    exact h.pop hstack
  · cases hs
  · cases hs

theorem Ledger.throws {s' : CaptureQueue T} {error : HookError} (h : Ledger o [] [] s)
    (hexpected : s.Expected o (.throws error)) (hs : s.throws o error = some s') :
    Ledger o [] [] s' := by
  obtain ⟨hreadable, hsending⟩ := hexpected
  unfold CaptureQueue.throws at hs
  split at hs
  · rename_i item stack hstack
    obtain ⟨batch, attempt, hframe⟩ := hsending _ (by rw [hstack]; rfl)
    cases hframe
  · rename_i batch attempt stack hstack
    cases hs
    exact Ledger.failed (h.pop hstack) hreadable
  · rename_i batch attempt stack hstack
    obtain ⟨batch, attempt, hframe⟩ := hsending _ (by rw [hstack]; rfl)
    cases hframe
  · rename_i rest reason stack hstack
    obtain ⟨batch, attempt, hframe⟩ := hsending _ (by rw [hstack]; rfl)
    cases hframe
  · cases hs
  · cases hs

/-- What goes on with a drain has its batch in no place. -/
theorem Ledger.resume {i : Nat} {s' : CaptureQueue T}
    {go : QueueDrain T → CaptureQueue T → Option (CaptureQueue T)} (h : Ledger o [] [] s)
    (hgo : ∀ drain t, Ledger o drain.batch [] t → go drain t = some s' → Ledger o [] [] s')
    (hs : s.resume i go = some s') : Ledger o [] [] s' := by
  unfold CaptureQueue.resume at hs
  split_ifs at hs
  obtain ⟨drain, hdrain, hs⟩ := Option.bind_eq_some_iff.mp hs
  exact hgo drain _ (h.take hdrain) hs

/-- Every expected move keeps the accounts. -/
theorem Ledger.next (hqueue : 1 ≤ o.maxQueue) {s' : CaptureQueue T} {move : QueueMove T}
    (h : Ledger o [] [] s) (hexpected : s.Expected o move) (hs : s.next o move = some s') :
    Ledger o [] [] s' := by
  cases move with
  | capture event =>
    cases hs
    exact h.capture hqueue hexpected
  | flush =>
    cases hs
    exact h.flush
  | close =>
    cases hs
    exact Ledger.flush (h.move rfl (fun a => rfl) rfl rfl (fun a => rfl) h.bounded rfl rfl)
  | timer =>
    rw [CaptureQueue.next] at hs
    split_ifs at hs
    cases hs
    exact Ledger.flush (h.move rfl (fun a => rfl) rfl rfl (fun a => rfl) h.bounded rfl rfl)
  | returns => exact h.returns hexpected hs
  | throws error => exact h.throws hexpected hs
  | resolves i =>
    rw [CaptureQueue.next] at hs
    refine h.resume (fun drain t ht hgo => ?_) hs
    cases drain with
    | awaiting batch attempt =>
      cases hgo
      exact Ledger.delivered ht
    | _ => cases hgo
  | rejects i error =>
    rw [CaptureQueue.next] at hs
    refine h.resume (fun drain t ht hgo => ?_) hs
    cases drain with
    | awaiting batch attempt =>
      cases hgo
      exact Ledger.failed ht hexpected
    | _ => cases hgo
  | retries i =>
    rw [CaptureQueue.next] at hs
    refine h.resume (fun drain t ht hgo => ?_) hs
    cases drain with
    | waiting batch attempt =>
      cases hgo
      refine ht.move rfl (fun a => ?_) rfl rfl (fun a => ?_) ht.bounded rfl rfl
      · simp only [inHand, batchesInFlight, List.flatMap_cons, QueueFrame.inHand, QueueFrame.batch,
          QueueDrain.batch, List.count_append, List.nil_append]
        omega
      · simp only [unreported, List.flatMap_cons, QueueFrame.unreported, List.nil_append]
    | _ => cases hgo
  | settles i =>
    rw [CaptureQueue.next] at hs
    refine h.resume (fun drain t ht hgo => ?_) hs
    cases drain with
    | finished =>
      cases hgo
      exact ht.move rfl (fun a => rfl) rfl rfl (fun a => rfl) ht.bounded rfl rfl
    | _ => cases hgo

/-- A run of expected moves keeps the accounts. -/
theorem Ledger.of_run (hqueue : 1 ≤ o.maxQueue)
    (h : (queueRuns o).RunWhere (fun s move => s.Expected o move) s) : Ledger o [] [] s := by
  refine TransitionSystem.RunWhere.invariant (fun t ht => ?_) (fun t move t' ht hmove hstep => ?_) h
  · cases ht
    exact ⟨List.forall_mem_nil _, List.nodup_nil, List.Perm.nil, rfl, rfl, List.Perm.nil,
      Nat.zero_le _, rfl, rfl⟩
  · exact ht.next hqueue hmove hstep

/-- What is accepted adds up: what waits for `onDrop` to be pushed, what is queued and in flight,
and what was counted as sent and dropped. -/
theorem Accounted.total (h : s.Accounted o) :
    s.accepted.length =
      s.inHand.length + s.queue.length + s.batchesInFlight.length + s.sent + s.dropped := by
  rw [h.placed.length_eq, h.sent, h.dropped]
  simp only [List.length_append]

/-- While every move of a queue is expected, its accounts add up in every state. -/
theorem capture_accounting (hqueue : 1 ≤ o.maxQueue)
    (h : (queueRuns o).RunWhere (fun s move => s.Expected o move) s) :
    s.Accounted o ∧ s.accepted.length =
      s.inHand.length + s.queue.length + s.batchesInFlight.length + s.sent + s.dropped := by
  have haccounted := (Ledger.of_run hqueue h).accounted
  exact ⟨haccounted, haccounted.total⟩

end

end CoolSdk.CaptureQueue

namespace CoolSdk.Reference

open CaptureQueue

/-- A queue of one event. -/
def shortQueue : QueueOptions Nat := { maxQueue := 1 }

/-- A run goes on with an expected move. -/
theorem expected_snoc {s s' : CaptureQueue Nat}
    (h : (queueRuns shortQueue).RunWhere (fun s move => s.Expected shortQueue move) s)
    (move : QueueMove Nat) (hnext : s.next shortQueue move = some s')
    (hexpected : s.Expected shortQueue move) :
    (queueRuns shortQueue).RunWhere (fun s move => s.Expected shortQueue move) s' :=
  h.snoc hexpected hnext

/-- An event that is captured, sent and told to `onSent` is counted as sent. -/
theorem capture_accounting_sent :
    ∃ s : CaptureQueue Nat, s.sent = 1 ∧ s.Accounted shortQueue ∧
      s.accepted.length =
        s.inHand.length + s.queue.length + s.batchesInFlight.length + s.sent + s.dropped := by
  have captured := expected_snoc (.start rfl) (.capture 1) rfl fun _ hfull =>
    absurd hfull (by decide)
  have sending := expected_snoc captured .flush rfl trivial
  have awaiting := expected_snoc sending .returns rfl (by
    rintro frame ⟨⟩ hhand
    exact absurd rfl hhand)
  have notifying := expected_snoc awaiting (.resolves 0) rfl trivial
  have finished := expected_snoc notifying .returns rfl (by
    rintro frame ⟨⟩ hhand
    exact absurd rfl hhand)
  exact ⟨_, rfl, capture_accounting (by decide) finished⟩

/-- A run as its moves make it. -/
def queueAfter (moves : List (QueueMove Nat)) : Option (CaptureQueue Nat) :=
  moves.foldlM (fun s move => s.next shortQueue move) {}

theorem reachable_queueAfter {moves : List (QueueMove Nat)} {s : CaptureQueue Nat}
    (h : queueAfter moves = some s) : (queueRuns shortQueue).Reachable s := by
  have hrun : ∀ (moves : List (QueueMove Nat)) {t : CaptureQueue Nat},
      (queueRuns shortQueue).Reachable t →
      moves.foldlM (fun s move => s.next shortQueue move) t = some s →
      (queueRuns shortQueue).Reachable s := by
    intro moves
    induction moves with
    | nil =>
      rintro t ht ⟨⟩
      exact ht
    | cons move moves ih =>
      intro t ht hmoves
      rw [List.foldlM_cons] at hmoves
      obtain ⟨t', ht', hmoves⟩ := Option.bind_eq_some_iff.mp hmoves
      exact ih (.snoc ht trivial ht') hmoves
  exact hrun moves (.start rfl) h

/-- The throw of an error with a message. -/
def late : HookError := { readable := true, message := some "late" }

/-- Where `onSent` throws, the batch is counted as sent and in flight again; where `onDrop` throws on
an overflow, the event that was captured is gone; where it throws in a drain, the flush rejects. -/
theorem hooks_break_accounts :
    (∃ s, (queueRuns shortQueue).Reachable s ∧ s.accepted.length = 1 ∧ s.sent = 1 ∧
        s.batchesInFlight.length = 1 ∧ ¬s.Accounted shortQueue) ∧
      (∃ s, (queueRuns shortQueue).Reachable s ∧ s.accepted.length = 2 ∧ s.queue = [] ∧
        s.stack = [] ∧ s.sent = 0 ∧ s.dropped = 1 ∧ ¬s.Accounted shortQueue) ∧
      ∃ s, (queueRuns shortQueue).Reachable s ∧ s.rejected = true ∧ ¬s.Accounted shortQueue := by
  have hplaced : ∀ {s : CaptureQueue Nat}, s.Accounted shortQueue → s.accepted.length =
      s.inHand.length + s.queue.length + s.batchesInFlight.length + s.sent + s.dropped :=
    fun h => h.total
  refine ⟨?_, ?_, ?_⟩
  · refine ⟨_, reachable_queueAfter (show queueAfter [.capture 1, .flush, .returns, .resolves 0,
      .throws late] = some _ from rfl), rfl, rfl, rfl, ?_⟩
    intro h
    exact absurd (hplaced h) (by decide)
  · refine ⟨_, reachable_queueAfter (show queueAfter [.capture 1, .capture 2, .throws late] =
      some _ from rfl), rfl, rfl, rfl, rfl, rfl, ?_⟩
    intro h
    exact absurd (hplaced h) (by decide)
  · refine ⟨_, reachable_queueAfter (show queueAfter [.capture 1, .flush, .returns, .rejects 0 late,
      .retries 0, .throws late, .retries 0, .throws late, .throws late] = some _ from rfl), rfl, ?_⟩
    intro h
    exact absurd h.flushes (by decide)

end CoolSdk.Reference
