import CoolSdk.Phala.LeafFile

/-!
# Interrupted appends

A process appends to the log in its file, and any write may be cut at any byte, by a crash that
the process is restarted after or by an error that it survives. The log comes back with all it
promised as long as no line is torn and none is written after a torn one or over leaves that the
process does not know of.
-/

namespace CoolSdk

/-- An append that reached the disk: its leaf hash and whether it returned. -/
structure Attempt where
  hash : Bytes
  returned : Bool
  deriving DecidableEq, Repr

/-- The leaves recovered after some attempts: those that returned, in order, and between them
possibly one of an interrupted attempt. -/
inductive Recovers : List Attempt → List Bytes → Prop
  | start : Recovers [] []
  | returned {attempts leaves} (hash : Bytes) (h : Recovers attempts leaves) :
    Recovers (attempts ++ [{ hash := hash, returned := true }]) (leaves ++ [hash])
  | lost {attempts leaves} (hash : Bytes) (h : Recovers attempts leaves) :
    Recovers (attempts ++ [{ hash := hash, returned := false }]) leaves
  | kept {attempts leaves} (hash : Bytes) (h : Recovers attempts leaves) :
    Recovers (attempts ++ [{ hash := hash, returned := false }]) (leaves ++ [hash])

/-- A log in use, with the appends that reached its disk, oldest first. -/
structure CrashRun where
  run : LogRun FileLog
  attempts : List Attempt

/-- A call, or a restart. A crash is a failing write that only a restart follows. -/
inductive CrashMove
  | call (move : LogMove WriteOutcome)
  | restarted

section

variable (H : Host) (logId : String) (logKey : KeyPair)

/-- The run after a move; where the constructor throws there is no new process. -/
def CrashRun.next (s : CrashRun) : CrashMove → CrashRun
  | .call move =>
    { run := s.run.next H (FileLog.evidenceLog H) move
      attempts := s.attempts ++
        match move.attempt H with
        | none => []
        | some (write, leafData) =>
          [{ hash := leafHash H leafData, returned := decide (write = .written) }] }
  | .restarted =>
    match FileLog.opened logId logKey s.run.log.leafFile with
    | .error _ => s
    | .ok log => { s with run := { s.run with log := log } }

/-- Whether what an interrupted write leaves on the disk is a start of its line. -/
def CrashMove.cut : CrashMove → Bool
  | .restarted => true
  | .call move =>
    match move.attempt H with
    | some (.failed landed _, leafData) =>
      landed.isPrefixOf (FileLog.digestLine (leafHash H leafData) ++ [10])
    | _ => true

/-- The runs of a log in a new directory, interrupted at any byte any number of times. -/
def crashRuns : TransitionSystem CrashRun CrashMove where
  init s := FileLog.opened logId logKey none = .ok s.run.log ∧ s.run.appended = [] ∧
    s.run.heads = [] ∧ s.run.receipts = [] ∧ s.attempts = []
  step s move s' := move.cut H = true ∧ s' = s.next H logId logKey move

/-- Whether an append tears no line and writes none after a torn one: what reaches the disk
follows complete lines and has all the digits of its own, and an append that returns is made
with the leaves that the file holds. -/
def CrashMove.safe (s : CrashRun) : CrashMove → Bool
  | .restarted => true
  | .call move =>
    match move.attempt H with
    | none => true
    | some (.written, _) => FileLog.endsLine (s.run.log.leafFile.getD []) &&
        decide (FileLog.replay s.run.log.leafFile = .ok s.run.log.leafHashes)
    | some (.failed landed _, _) => landed.isEmpty ||
        FileLog.endsLine (s.run.log.leafFile.getD []) && decide (64 ≤ landed.length)

/-- The log can be opened and holds what its appends promised, and all that was issued states a
log that it has grown from. -/
def CrashRun.Recovered (s : CrashRun) : Prop :=
  ∃ log, FileLog.opened logId logKey s.run.log.leafFile = .ok log ∧
    Recovers s.attempts log.leafHashes ∧
    LogRun.Grows H FileLog.leafHashes { s.run with log := log }

end

/-- The file is read as leaves that the attempts account for, which the process knows a start
of. -/
structure CrashRun.Intact (H : Host) (s : CrashRun) (leaves : List Bytes) : Prop where
  reads : FileLog.replay s.run.log.leafFile = .ok leaves
  recovers : Recovers s.attempts leaves
  known : s.run.log.leafHashes <+: leaves
  grows : s.run.Grows H FileLog.leafHashes

variable {H : Host} {logId : String} {logKey : KeyPair}

/-- An intact log is recovered by opening it. -/
private theorem CrashRun.Intact.recovered {s : CrashRun} {leaves : List Bytes}
    (h : s.Intact H leaves) : s.Recovered H logId logKey :=
  ⟨_, FileLog.opened_of_replay h.reads, h.recovers,
    h.grows.later (FileLog.length_of_replay h.reads) h.known⟩

/-- The start of a line that has all its digits is the line, with or without its newline. -/
private theorem eq_line_of_prefix {landed line : Bytes} (h : landed <+: line ++ [10])
    (hlength : line.length ≤ landed.length) : landed = line ∨ landed = line ++ [10] := by
  rcases Nat.lt_or_ge line.length landed.length with hlt | hge
  · right
    refine h.eq_of_length (le_antisymm h.length_le ?_)
    rw [List.length_append, List.length_singleton]
    exact hlt
  · left
    have hpre := List.prefix_of_prefix_length_le h (List.prefix_append line [10]) hge
    exact hpre.eq_of_length (le_antisymm hge hlength)

/-- What is read after an interrupted write that tears no line: at most its leaf more. -/
private theorem replay_of_interrupted {leafFile : Option Bytes} {leaves : List Bytes}
    (hreads : FileLog.replay leafFile = .ok leaves) {landed hash : Bytes}
    (hhash : hash.length = 32) (hcut : landed <+: FileLog.digestLine hash ++ [10])
    (hsafe : landed = [] ∨ FileLog.endsLine (leafFile.getD []) = true ∧ 64 ≤ landed.length) :
    FileLog.replay (some (leafFile.getD [] ++ landed)) = .ok leaves ∨
      FileLog.replay (some (leafFile.getD [] ++ landed)) = .ok (leaves ++ [hash]) := by
  rw [← FileLog.replay_getD] at hreads
  rcases hsafe with rfl | ⟨hended, hlong⟩
  · left
    rwa [List.append_nil]
  · right
    have happend := FileLog.replay_append hended hreads hhash
    rw [← FileLog.length_digestLine hhash] at hlong
    rcases eq_line_of_prefix hcut hlong with rfl | rfl
    · exact happend.1
    · exact happend.2

/-- Every safe move keeps the log intact. -/
private theorem next_intact (hsha : ∀ data, (H.sha256 data).length = 32) {s : CrashRun}
    {leaves : List Bytes} (h : s.Intact H leaves) {move : CrashMove} (hcut : move.cut H = true)
    (hsafe : move.safe H s = true) : ∃ leaves, (s.next H logId logKey move).Intact H leaves := by
  cases move with
  | restarted =>
    rw [CrashRun.next, FileLog.opened_of_replay h.reads]
    exact ⟨leaves, h.reads, h.recovers, List.prefix_rfl,
      h.grows.later (FileLog.length_of_replay h.reads) h.known⟩
  | call move =>
    have hgrows := h.grows.next hsha FileLog.keepsTree move
    have hlog := FileLog.next_log (H := H) s.run move
    rw [CrashRun.next]
    cases hattempt : move.attempt H with
    | none =>
      rw [hattempt] at hlog
      simp only at hlog
      refine ⟨leaves, ?_, ?_, ?_, hgrows⟩
      · rw [hlog]
        exact h.reads
      · rw [List.append_nil]
        exact h.recovers
      · rw [hlog]
        exact h.known
    | some attempt =>
      obtain ⟨write, leafData⟩ := attempt
      rw [hattempt] at hlog
      simp only at hlog
      have hhash : (leafHash H leafData).length = 32 := hsha _
      cases write with
      | written =>
        simp only [CrashMove.safe, hattempt, Bool.and_eq_true, decide_eq_true_eq] at hsafe
        obtain ⟨hended, hcopy⟩ := hsafe
        obtain rfl := Except.ok.inj (hcopy.symm.trans h.reads)
        rw [← FileLog.replay_getD] at hcopy
        refine ⟨s.run.log.leafHashes ++ [leafHash H leafData], ?_, ?_, ?_, hgrows⟩
        · rw [hlog]
          exact (FileLog.replay_append hended hcopy hhash).2
        · exact .returned _ h.recovers
        · rw [hlog]
          exact List.prefix_rfl
      | failed landed error =>
        simp only [CrashMove.cut, hattempt, List.isPrefixOf_iff_prefix] at hcut
        simp only [CrashMove.safe, hattempt, Bool.or_eq_true, List.isEmpty_iff, Bool.and_eq_true,
          decide_eq_true_eq] at hsafe
        have hknown : (s.run.next H (FileLog.evidenceLog H) move).log.leafHashes =
            s.run.log.leafHashes := by
          rw [hlog]
          rfl
        rcases replay_of_interrupted h.reads hhash hcut hsafe with hreads | hreads
        · refine ⟨leaves, ?_, .lost _ h.recovers, ?_, hgrows⟩
          · rw [hlog]
            exact hreads
          · rw [hknown]
            exact h.known
        · refine ⟨leaves ++ [leafHash H leafData], ?_, .kept _ h.recovers, ?_, hgrows⟩
          · rw [hlog]
            exact hreads
          · rw [hknown]
            exact h.known.trans (List.prefix_append _ _)

/-- In every run in which no append tears a line, follows a torn one or ignores a leaf of the
file, opening the log again succeeds, recovers every leaf whose append returned, and at most the
one being written of each interrupted append, in order; everything issued still states a log that
the recovered one has grown from. -/
theorem crash_recovery (hsha : ∀ data, (H.sha256 data).length = 32) {s : CrashRun}
    (h : (crashRuns H logId logKey).RunWhere (fun s move => move.safe H s = true) s) :
    s.Recovered H logId logKey := by
  have hintact : ∃ leaves, s.Intact H leaves := by
    refine h.invariant (?_ : ∀ s, _ → ∃ leaves, CrashRun.Intact H s leaves) ?_
    · rintro s ⟨hopened, happended, hheads, hreceipts, hattempts⟩
      rw [FileLog.opened_of_replay rfl] at hopened
      have hlog := Except.ok.inj hopened
      refine ⟨[], ?_, ?_, ?_, ?_, ?_, ?_, ?_⟩
      · rw [← hlog]
        rfl
      · rw [hattempts]
        exact .start
      · exact hlog ▸ List.prefix_rfl
      · rw [← hlog]
        exact fun _ hmem => absurd hmem List.not_mem_nil
      · simp [happended]
      · simp [hheads]
      · simp [hreceipts]
    · rintro s move s' ⟨leaves, hs⟩ hsafe ⟨hcut, rfl⟩
      exact next_intact hsha hs hcut hsafe
  obtain ⟨leaves, hintact⟩ := hintact
  exact hintact.recovered

/-! ## Two runs -/

/-- A new log on the reference host after some moves. -/
def crashRunAfter (moves : List CrashMove) : CrashRun :=
  moves.foldl (CrashRun.next Reference.host "cool-nwc" (Reference.key "log" "bG9n"))
    { run :=
        { log :=
            { logId := "cool-nwc"
              logKey := Reference.key "log" "bG9n"
              leafHashes := []
              leafFile := none }
          appended := []
          heads := []
          receipts := [] }
      attempts := [] }

private theorem crashRunAfter_run (moves : List CrashMove) (ok : CrashRun → CrashMove → Bool)
    (h : TransitionSystem.admitted
      (CrashRun.next Reference.host "cool-nwc" (Reference.key "log" "bG9n"))
      (fun s move => ok s move && move.cut Reference.host) (crashRunAfter []) moves = true) :
    (crashRuns Reference.host "cool-nwc" (Reference.key "log" "bG9n")).RunWhere
      (fun s move => ok s move = true) (crashRunAfter moves) := by
  refine TransitionSystem.RunWhere.foldl ?_ (.start ⟨rfl, rfl, rfl, rfl, rfl⟩) h
  intro s move hmove
  rw [Bool.and_eq_true] at hmove
  exact ⟨hmove.1, hmove.2, rfl⟩

/-- Bytes of the line of a leaf. -/
def lineStart (length : Nat) (leafData : Bytes) : Bytes :=
  (FileLog.digestLine (leafHash Reference.host leafData) ++ [10]).take length

/-- A record is sealed. -/
def sealMove : CrashMove :=
  .call (.sealRecord (Reference.key "record" "cmVjb3Jk") [("schema", .str "cool.evidence.v1")]
    "2026-01-01T00:00:02.000Z" .written .written)

/-- A crash after a line is written, a full disk, and a record sealed before another restart. -/
def wholeLineMoves : List CrashMove :=
  [.call (.append .written [1]), .call (.append (.failed (lineStart 65 [2]) "killed") [2]),
    .restarted, .call (.append (.failed [] "ENOSPC") [3]), sealMove, .restarted]

/-- A write that fails after ten bytes, and a record sealed by the process that goes on. -/
def tornLineMoves : List CrashMove :=
  [.call (.append (.failed (lineStart 10 [1]) "EIO") [1]), sealMove]

theorem crash_recovery_whole_lines :
    (crashRunAfter wholeLineMoves).attempts.map Attempt.returned = [true, false, false, true] ∧
      (crashRunAfter wholeLineMoves).run.log.leafHashes.length = 3 ∧
      (crashRunAfter wholeLineMoves).Recovered Reference.host "cool-nwc"
        (Reference.key "log" "bG9n") := by
  have hmoves := crashRunAfter_run wholeLineMoves
    (fun s move => move.safe Reference.host s) (by decide +kernel)
  refine ⟨by decide +kernel, by decide +kernel, ?_⟩
  exact crash_recovery (H := Reference.host) Reference.length_digest hmoves

/-- After a torn write that the process survives, the next append returns and its receipt is
issued, but the log cannot be opened again. -/
theorem torn_line_loses_receipt :
    (crashRuns Reference.host "cool-nwc" (Reference.key "log" "bG9n")).Reachable
        (crashRunAfter tornLineMoves) ∧
      (crashRunAfter tornLineMoves).attempts.map Attempt.returned = [false, true] ∧
      (crashRunAfter tornLineMoves).run.receipts.length = 1 ∧
      ¬(crashRunAfter tornLineMoves).Recovered Reference.host "cool-nwc"
        (Reference.key "log" "bG9n") := by
  refine ⟨?_, by decide +kernel, by decide +kernel, ?_⟩
  · have hmoves := crashRunAfter_run tornLineMoves (fun _ _ => true) (by decide +kernel)
    exact hmoves.mono fun _ _ _ => trivial
  · rintro ⟨log, hopened, _⟩
    obtain ⟨leaves, hreplay, _⟩ := bind_eq_ok.mp hopened
    have hcorrupt : FileLog.replay (crashRunAfter tornLineMoves).run.log.leafFile =
        .error ("leaves.log:1 is not a 32-byte hex digest — refusing to start on a corrupt " ++
          "log") := by
      decide +kernel
    rw [hcorrupt] at hreplay
    cases hreplay

end CoolSdk
