import CoolSdk.Phala.LeafFile

/-!
# A log directory shared by processes

Any number of processes open the log kept in one directory and use it at the same time. The file
is shared; the tree is not: each process reads the file when it opens the log and computes its
heads from its own copy ever after. As long as no process appends with a copy that others have
outgrown, all heads are heads of one log.
-/

namespace CoolSdk

/-- A log directory, with the processes that have opened it and what each has issued. -/
structure LogDirectory where
  leafFile : Option Bytes
  /-- The leaf hashes in the order in which their lines reached the file. -/
  written : List Bytes
  processes : List (LogRun FileLog)

/-- One process opens the log, or makes a call. A call touches the file once, when it appends. -/
inductive DirectoryMove
  | opened
  | call (process : Nat) (move : LogMove WriteOutcome)

section

variable (H : Host) (logId : String) (logKey : KeyPair)

/-- The directory after a move; a process whose constructor throws makes no calls. -/
def LogDirectory.next (s : LogDirectory) : DirectoryMove → LogDirectory
  | .opened =>
    match FileLog.opened logId logKey s.leafFile with
    | .error _ => s
    | .ok log =>
      { s with
        processes := s.processes ++ [{ log := log, appended := [], heads := [], receipts := [] }] }
  | .call process move =>
    match s.processes[process]? with
    | none => s
    | some r =>
      let r' := LogRun.next H (FileLog.evidenceLog H)
        { r with log := { r.log with leafFile := s.leafFile } } move
      { leafFile := r'.log.leafFile
        written := s.written ++ r'.log.leafHashes.drop r.log.leafHashes.length
        processes := s.processes.set process r' }

/-- Whether a call's append lands as a whole or not at all. -/
def DirectoryMove.atomic : DirectoryMove → Bool
  | .opened => true
  | .call _ move =>
    match move.attempt H with
    | some (.failed landed _, _) => landed.isEmpty
    | _ => true

/-- The runs of the processes sharing a directory, from whatever its file held. -/
def directoryRuns : TransitionSystem LogDirectory DirectoryMove where
  init s := s.processes = [] ∧ ∀ leaves, FileLog.replay s.leafFile = .ok leaves → s.written = leaves
  step s move s' := move.atomic H = true ∧ s' = s.next H logId logKey move

/-- Whether a call that appends is made by a process whose copy has every leaf written so far. -/
def DirectoryMove.upToDate (s : LogDirectory) : DirectoryMove → Bool
  | .opened => true
  | .call process move =>
    match s.processes[process]?, move.attempt H with
    | some r, some (.written, _) => decide (r.log.leafHashes = s.written)
    | _, _ => true

end

/-- The tree heads issued by any process, each with the log it was built over. -/
def LogDirectory.heads (s : LogDirectory) : List (STH × FileLog) :=
  s.processes.flatMap LogRun.heads

/-- No two heads of one size state different roots, and the leaves of the smaller of two heads
start those of the larger. -/
def LogDirectory.NoEquivocation (s : LogDirectory) : Prop :=
  ∀ first ∈ s.heads, ∀ second ∈ s.heads,
    (first.1.treeSize = second.1.treeSize → first.1.rootHash = second.1.rootHash) ∧
      (first.1.treeSize ≤ second.1.treeSize → first.2.leafHashes <+: second.2.leafHashes)

/-- The file is read as what was written, and every process holds a start of it. -/
structure LogDirectory.Agrees (H : Host) (s : LogDirectory) : Prop where
  reads : ∀ leaves, FileLog.replay s.leafFile = .ok leaves → s.written = leaves
  grows : ∀ r ∈ s.processes, r.Grows H FileLog.leafHashes
  behind : ∀ r ∈ s.processes, r.log.leafHashes <+: s.written

variable {H : Host} {logId : String} {logKey : KeyPair}

/-- An append that lands whole or not at all, by a process that has every leaf: the file is read
as what was written before, and as what the process now holds besides. -/
private theorem append_agrees (hsha : ∀ data, (H.sha256 data).length = 32) {log : FileLog}
    {written : List Bytes}
    (hreads : ∀ leaves, FileLog.replay log.leafFile = .ok leaves → written = leaves)
    (hbehind : log.leafHashes <+: written) {write : WriteOutcome} {leafData : Bytes}
    (hatomic : ∀ landed error, write = .failed landed error → landed = [])
    (hdate : write = .written → log.leafHashes = written) :
    let after := (FileLog.append H write leafData log).2
    (∀ leaves, FileLog.replay after.leafFile = .ok leaves →
        written ++ after.leafHashes.drop log.leafHashes.length = leaves) ∧
      after.leafHashes <+: written ++ after.leafHashes.drop log.leafHashes.length := by
  cases write with
  | failed landed error =>
    obtain rfl := hatomic landed error rfl
    simp only [FileLog.append, List.drop_length, List.append_nil]
    rw [FileLog.replay_getD]
    exact ⟨hreads, hbehind⟩
  | written =>
    have hall := hdate rfl
    simp only [FileLog.append, List.drop_left, hall]
    refine ⟨?_, List.prefix_rfl⟩
    intro leaves hreplay
    obtain ⟨before, hbefore, rfl⟩ := FileLog.replay_of_append (hsha _) hreplay
    rw [FileLog.replay_getD] at hbefore
    rw [hreads before hbefore]
    rfl

/-- The same of any call. -/
private theorem call_agrees (hsha : ∀ data, (H.sha256 data).length = 32) (r : LogRun FileLog)
    (move : LogMove WriteOutcome) {written : List Bytes}
    (hreads : ∀ leaves, FileLog.replay r.log.leafFile = .ok leaves → written = leaves)
    (hbehind : r.log.leafHashes <+: written)
    (hatomic : ∀ landed error leafData, move.attempt H = some (.failed landed error, leafData) →
      landed = [])
    (hdate : ∀ leafData, move.attempt H = some (.written, leafData) → r.log.leafHashes = written) :
    let after := (r.next H (FileLog.evidenceLog H) move).log
    (∀ leaves, FileLog.replay after.leafFile = .ok leaves →
        written ++ after.leafHashes.drop r.log.leafHashes.length = leaves) ∧
      after.leafHashes <+: written ++ after.leafHashes.drop r.log.leafHashes.length := by
  rw [FileLog.next_log]
  cases hattempt : move.attempt H with
  | none =>
    simp only [List.drop_length, List.append_nil]
    exact ⟨hreads, hbehind⟩
  | some attempt =>
    obtain ⟨write, leafData⟩ := attempt
    refine append_agrees hsha hreads hbehind ?_ ?_
    · rintro landed error rfl
      exact hatomic landed error leafData hattempt
    · rintro rfl
      exact hdate leafData hattempt

/-- Every move by up-to-date processes keeps the invariant. -/
private theorem next_agrees (hsha : ∀ data, (H.sha256 data).length = 32) {s : LogDirectory}
    (h : s.Agrees H) {move : DirectoryMove} (hdate : move.upToDate H s = true)
    (hatomic : move.atomic H = true) : (s.next H logId logKey move).Agrees H := by
  cases move with
  | opened =>
    rw [LogDirectory.next]
    split
    · exact h
    · rename_i log hopened
      obtain ⟨leaves, hreplay, hopened⟩ := bind_eq_ok.mp hopened
      cases hopened
      refine ⟨h.reads, ?_, ?_⟩
      · rw [List.forall_mem_append, List.forall_mem_singleton]
        refine ⟨h.grows, FileLog.length_of_replay hreplay, ?_, ?_, ?_⟩
        · exact fun _ ha => absurd ha List.not_mem_nil
        · exact fun _ ha => absurd ha List.not_mem_nil
        · exact fun _ ha => absurd ha List.not_mem_nil
      · rw [List.forall_mem_append, List.forall_mem_singleton]
        refine ⟨h.behind, ?_⟩
        exact h.reads _ hreplay ▸ List.prefix_rfl
  | call process move =>
    rw [LogDirectory.next]
    split
    · exact h
    · rename_i r hr
      have hmem := List.mem_of_getElem? hr
      have hgrows : LogRun.Grows H FileLog.leafHashes
          { r with log := { r.log with leafFile := s.leafFile } } :=
        (h.grows r hmem).later (h.grows r hmem).wide List.prefix_rfl
      have hnext := hgrows.next hsha FileLog.keepsTree move
      have hwhole : ∀ landed error leafData,
          move.attempt H = some (.failed landed error, leafData) → landed = [] := by
        intro landed error leafData hattempt
        simp only [DirectoryMove.atomic, hattempt, List.isEmpty_iff] at hatomic
        exact hatomic
      have hcopy : ∀ leafData, move.attempt H = some (.written, leafData) →
          r.log.leafHashes = s.written := by
        intro leafData hattempt
        simp only [DirectoryMove.upToDate, hr, hattempt, decide_eq_true_eq] at hdate
        exact hdate
      have hafter := call_agrees hsha { r with log := { r.log with leafFile := s.leafFile } } move
        h.reads (h.behind r hmem) hwhole hcopy
      refine ⟨hafter.1, ?_, ?_⟩
      · intro r' hr'
        rcases List.mem_or_eq_of_mem_set hr' with hold | rfl
        · exact h.grows r' hold
        · exact hnext
      · intro r' hr'
        rcases List.mem_or_eq_of_mem_set hr' with hold | rfl
        · exact (h.behind r' hold).trans (List.prefix_append _ _)
        · exact hafter.2

/-- Heads that state starts of one log do not equivocate. -/
private theorem LogDirectory.Agrees.noEquivocation {s : LogDirectory} (h : s.Agrees H) :
    s.NoEquivocation := by
  have hstates : ∀ head ∈ s.heads, head.2.leafHashes <+: s.written ∧
      head.1.treeSize = head.2.leafHashes.length ∧
      rootHashOf H head.2.leafHashes = .ok head.1.rootHash := by
    intro head hhead
    obtain ⟨r, hr, hhead⟩ := List.mem_flatMap.mp hhead
    obtain ⟨hpre, hsize, hroot⟩ := (h.grows r hr).heads head hhead
    exact ⟨hpre.trans (h.behind r hr), hsize, hroot⟩
  intro first hfirst second hsecond
  obtain ⟨hfirstPre, hfirstSize, hfirstRoot⟩ := hstates first hfirst
  obtain ⟨hsecondPre, hsecondSize, hsecondRoot⟩ := hstates second hsecond
  have hpre : first.1.treeSize ≤ second.1.treeSize →
      first.2.leafHashes <+: second.2.leafHashes := by
    intro hle
    rw [hfirstSize, hsecondSize] at hle
    exact List.prefix_of_prefix_length_le hfirstPre hsecondPre hle
  refine ⟨?_, hpre⟩
  intro hsize
  have hleaves := (hpre hsize.le).eq_of_length (by rw [← hfirstSize, ← hsecondSize, hsize])
  rw [hleaves, hsecondRoot] at hfirstRoot
  exact (Except.ok.inj hfirstRoot).symm

/-- In every run in which each append is made by a process whose copy has every leaf written so
far, the processes sharing a log directory do not equivocate. -/
theorem no_equivocation (hsha : ∀ data, (H.sha256 data).length = 32) {s : LogDirectory}
    (h : (directoryRuns H logId logKey).RunWhere (fun s move => move.upToDate H s = true) s) :
    s.NoEquivocation := by
  refine LogDirectory.Agrees.noEquivocation (H := H) (h.invariant ?_ ?_)
  · rintro s ⟨hprocesses, hreads⟩
    refine ⟨hreads, ?_, ?_⟩
    · simp [hprocesses]
    · simp [hprocesses]
  · rintro s move s' hs hdate ⟨hatomic, rfl⟩
    exact next_agrees hsha hs hdate hatomic

/-! ## Two runs -/

/-- An empty directory. -/
def emptyDirectory : LogDirectory := { leafFile := none, written := [], processes := [] }

/-- One process logs a leaf and takes a head before another opens the log and does so. -/
def successiveMoves : List DirectoryMove :=
  [.opened, .call 0 (.append .written [1]),
    .call 0 (.buildSTH .written "2026-01-01T00:00:01.000Z"),
    .opened, .call 1 (.append .written [2]),
    .call 1 (.buildSTH .written "2026-01-01T00:00:02.000Z")]

/-- Both processes open the log before either of them logs a leaf. -/
def concurrentMoves : List DirectoryMove :=
  [.opened, .opened, .call 0 (.append .written [1]),
    .call 0 (.buildSTH .written "2026-01-01T00:00:01.000Z"),
    .call 1 (.append .written [2]),
    .call 1 (.buildSTH .written "2026-01-01T00:00:02.000Z")]

/-- An empty directory after some moves. -/
def directoryAfter (moves : List DirectoryMove) : LogDirectory :=
  moves.foldl (LogDirectory.next Reference.host "cool-nwc" (Reference.key "log" "bG9n"))
    emptyDirectory

private theorem directoryAfter_run (moves : List DirectoryMove)
    (ok : LogDirectory → DirectoryMove → Bool)
    (h : TransitionSystem.admitted
      (LogDirectory.next Reference.host "cool-nwc" (Reference.key "log" "bG9n"))
      (fun s move => ok s move && move.atomic Reference.host) emptyDirectory moves = true) :
    (directoryRuns Reference.host "cool-nwc" (Reference.key "log" "bG9n")).RunWhere
      (fun s move => ok s move = true) (directoryAfter moves) := by
  refine TransitionSystem.RunWhere.foldl ?_ (.start ⟨rfl, ?_⟩) h
  · intro s move hmove
    rw [Bool.and_eq_true] at hmove
    exact ⟨hmove.1, hmove.2, rfl⟩
  · intro leaves hreplay
    exact Except.ok.inj hreplay

theorem no_equivocation_successive :
    (directoryAfter successiveMoves).heads.map (fun head => head.1.treeSize) = [1, 2] ∧
      (directoryAfter successiveMoves).NoEquivocation := by
  have hmoves := directoryAfter_run successiveMoves
    (fun s move => move.upToDate Reference.host s) (by decide)
  exact ⟨by decide +kernel, no_equivocation (H := Reference.host) Reference.length_digest hmoves⟩

/-- Two processes that both open the log before either appends sign two heads of one size over
different roots. -/
theorem concurrent_processes_equivocate :
    (directoryRuns Reference.host "cool-nwc" (Reference.key "log" "bG9n")).Reachable
        (directoryAfter concurrentMoves) ∧
      (directoryAfter concurrentMoves).heads.map (fun head => head.1.treeSize) = [1, 1] ∧
      ¬(directoryAfter concurrentMoves).NoEquivocation := by
  refine ⟨?_, by decide, ?_⟩
  · have hmoves := directoryAfter_run concurrentMoves (fun _ _ => true) (by decide)
    exact hmoves.mono fun _ _ _ => trivial
  · intro h
    have hroots : ∃ first ∈ (directoryAfter concurrentMoves).heads,
        ∃ second ∈ (directoryAfter concurrentMoves).heads,
        first.1.treeSize = second.1.treeSize ∧ first.1.rootHash ≠ second.1.rootHash := by
      decide
    obtain ⟨first, hfirst, second, hsecond, hsize, hroot⟩ := hroots
    exact hroot ((h first hfirst second hsecond).1 hsize)

end CoolSdk
