import CoolSdk.Phala.Transparency

/-!
# The file of leaf digests

What replaying a file of leaf digests reads after bytes were added to it, whatever it held
before. Only a file that ends with its last line takes a further line without damage.
-/

namespace CoolSdk

namespace FileLog

/-! ## Lines -/

/-- Whether every line of a file has its newline. -/
def endsLine (text : Bytes) : Bool := text.getLast?.all fun c => c == 10

private theorem endsLine_concat (text : Bytes) : endsLine (text ++ [10]) = true := by
  rw [endsLine, List.getLast?_concat]
  rfl

private theorem fileLines_append_newline (text rest : Bytes) :
    fileLines (text ++ 10 :: rest) = fileLines text ++ fileLines rest := by
  simp only [fileLines, List.splitOn_append_cons_self, List.filter_append]

private theorem fileLines_line {line : Bytes} (h : (10 : UInt8) ∉ line) :
    fileLines line = if line = [] then [] else [line] := by
  rw [fileLines, List.splitOn_eq_singleton h]
  cases line with
  | nil => rfl
  | cons c line => rfl

private theorem fileLines_nil : fileLines [] = [] := rfl

/-- What follows a complete line is read on its own. -/
theorem fileLines_append {text : Bytes} (h : endsLine text = true) (rest : Bytes) :
    fileLines (text ++ rest) = fileLines text ++ fileLines rest := by
  rcases List.eq_nil_or_concat text with rfl | ⟨before, c, rfl⟩
  · rw [List.nil_append, fileLines_nil, List.nil_append]
  · rw [List.concat_eq_append] at h ⊢
    rw [endsLine, List.getLast?_concat] at h
    obtain rfl : c = 10 := beq_iff_eq.mp h
    rw [List.append_assoc, List.singleton_append, fileLines_append_newline,
      fileLines_append_newline, fileLines_nil, List.append_nil]

/-- A file is its complete lines and the start of one more. -/
private theorem exists_openLine (text : Bytes) :
    ∃ ended line, text = ended ++ line ∧ endsLine ended = true ∧ (10 : UInt8) ∉ line := by
  induction text using List.reverseRecOn with
  | nil => exact ⟨[], [], rfl, rfl, List.not_mem_nil⟩
  | append_singleton text c ih =>
    by_cases hc : c = 10
    · subst hc
      exact ⟨text ++ [10], [], by rw [List.append_nil], endsLine_concat text, List.not_mem_nil⟩
    · obtain ⟨ended, line, rfl, hended, hline⟩ := ih
      refine ⟨ended, line ++ [c], by rw [List.append_assoc], hended, ?_⟩
      rw [List.mem_append, List.mem_singleton, not_or]
      exact ⟨hline, Ne.symm hc⟩

/-! ## Digest lines -/

/-- The line of a leaf hash, without its newline. -/
def digestLine (hash : Bytes) : Bytes := utf8 (toHex hash)

private theorem isDigestLine_iff {line : Bytes} : isDigestLine line = true ↔ line.length = 64 ∧
    ∀ c ∈ line, (decide (48 ≤ c ∧ c ≤ 57) || decide (97 ≤ c ∧ c ≤ 102)) = true := by
  rw [isDigestLine, Bool.and_eq_true, decide_eq_true_eq, List.all_eq_true]

theorem length_digestLine {hash : Bytes} (h : hash.length = 32) : (digestLine hash).length = 64 := by
  rw [digestLine, (utf8_toHex hash).1, h]

private theorem isDigestLine_digestLine {hash : Bytes} (h : hash.length = 32) :
    isDigestLine (digestLine hash) = true :=
  isDigestLine_iff.mpr ⟨length_digestLine h, List.all_eq_true.mp (utf8_toHex hash).2⟩

private theorem not_mem_of_isDigestLine {line : Bytes} (h : isDigestLine line = true) :
    (10 : UInt8) ∉ line := by
  intro hmem
  have hdigit := (isDigestLine_iff.mp h).2 10 hmem
  revert hdigit
  decide

/-- A file of some lines and then others is read as what is read of both. -/
theorem replayLines_append (lines rest : List Bytes) (index : Nat) :
    replayLines index (lines ++ rest) = (do
      let leaves ← replayLines index lines
      let later ← replayLines (index + lines.length) rest
      return leaves ++ later) := by
  induction lines generalizing index with
  | nil =>
    rw [List.nil_append, replayLines, List.length_nil, Nat.add_zero]
    cases replayLines index rest with
    | error e => rfl
    | ok later => rfl
  | cons line lines ih =>
    rw [List.cons_append, replayLines, replayLines, ih, List.length_cons]
    by_cases hline : (!isDigestLine line) = true
    · rw [if_pos hline, if_pos hline]
      rfl
    · rw [if_neg hline, if_neg hline, Nat.add_right_comm, Nat.add_assoc]
      cases fromHexUtf8 line with
      | error e => rfl
      | ok hash =>
        cases replayLines (index + 1) lines with
        | error e => rfl
        | ok leaves =>
          cases replayLines (index + (lines.length + 1)) rest with
          | error e => rfl
          | ok later => rfl

private theorem replayLines_digestLine {hash : Bytes} (h : hash.length = 32) (index : Nat) :
    replayLines index [digestLine hash] = .ok [hash] := by
  have hread : fromHexUtf8 (digestLine hash) = .ok hash := fromHex_toHex hash
  rw [replayLines, isDigestLine_digestLine h, hread]
  rfl

/-- Bytes that are one digest line, with or without its newline. -/
private theorem fileLines_digestLine {hash : Bytes} (h : hash.length = 32) :
    fileLines (digestLine hash) = [digestLine hash] ∧
      fileLines (digestLine hash ++ [10]) = [digestLine hash] := by
  have hfree := not_mem_of_isDigestLine (isDigestLine_digestLine h)
  have hline : digestLine hash ≠ [] := by
    intro hnil
    have hlength := length_digestLine h
    rw [hnil] at hlength
    cases hlength
  have hfirst : fileLines (digestLine hash) = [digestLine hash] := by
    rw [fileLines_line hfree, if_neg hline]
  refine ⟨hfirst, ?_⟩
  rw [fileLines_append_newline, hfirst, fileLines_nil, List.append_nil]

private theorem replayLines_snoc {hash : Bytes} (h : hash.length = 32) {lines : List Bytes}
    {leaves : List Bytes} (hlines : replayLines 0 lines = .ok leaves) :
    replayLines 0 (lines ++ [digestLine hash]) = .ok (leaves ++ [hash]) := by
  rw [replayLines_append, hlines, ok_bind, replayLines_digestLine h]
  rfl

/-- After complete lines, the line of a leaf hash is read as that hash, whether or not its
newline has reached the disk. -/
theorem replay_append {text : Bytes} (hended : endsLine text = true) {leaves : List Bytes}
    (hreplay : replay (some text) = .ok leaves) {hash : Bytes} (h : hash.length = 32) :
    replay (some (text ++ digestLine hash)) = .ok (leaves ++ [hash]) ∧
      replay (some (text ++ (digestLine hash ++ [10]))) = .ok (leaves ++ [hash]) := by
  have hlines := fileLines_digestLine h
  have hsnoc := replayLines_snoc h hreplay
  constructor
  · rw [replay, fileLines_append hended, hlines.1]
    exact hsnoc
  · rw [replay, fileLines_append hended, hlines.2]
    exact hsnoc

/-- Where a file can be read after a leaf was appended to it, it could be read before, and the
leaf was appended to what was read. -/
theorem replay_of_append {text hash : Bytes} (h : hash.length = 32) {leaves : List Bytes}
    (hreplay : replay (some (text ++ (digestLine hash ++ [10]))) = .ok leaves) :
    ∃ before, replay (some text) = .ok before ∧ leaves = before ++ [hash] := by
  obtain ⟨ended, line, rfl, hended, hfree⟩ := exists_openLine text
  have hmerged : (10 : UInt8) ∉ line ++ digestLine hash := by
    rw [List.mem_append, not_or]
    exact ⟨hfree, not_mem_of_isDigestLine (isDigestLine_digestLine h)⟩
  have hlength := length_digestLine h
  have hne : line ++ digestLine hash ≠ [] := by
    intro hnil
    rw [List.append_eq_nil_iff] at hnil
    rw [hnil.2] at hlength
    cases hlength
  have hlines : fileLines (ended ++ line ++ (digestLine hash ++ [10])) =
      fileLines ended ++ [line ++ digestLine hash] := by
    rw [List.append_assoc, ← List.append_assoc line, fileLines_append hended,
      fileLines_append_newline, fileLines_line hmerged, if_neg hne, fileLines_nil, List.append_nil]
  rw [replay, hlines, replayLines_append] at hreplay
  obtain ⟨before, hbefore, hreplay⟩ := bind_eq_ok.mp hreplay
  -- a line started before the append is too long to be read together with it
  have hempty : line = [] := by
    by_contra hline
    have hpos := List.length_pos_iff.mpr hline
    have hlong : isDigestLine (line ++ digestLine hash) = false := by
      rw [isDigestLine, List.length_append, hlength, decide_eq_false (by omega), Bool.false_and]
    rw [replayLines, hlong] at hreplay
    cases hreplay
  subst hempty
  rw [List.nil_append, replayLines_digestLine h] at hreplay
  cases hreplay
  rw [List.append_nil]
  exact ⟨before, hbefore, rfl⟩

/-- A file that can be read opens as the log of its leaves. -/
theorem opened_of_replay {logId : String} {logKey : KeyPair} {leafFile : Option Bytes}
    {leaves : List Bytes} (h : replay leafFile = .ok leaves) :
    opened logId logKey leafFile =
      .ok { logId := logId, logKey := logKey, leafHashes := leaves, leafFile := leafFile } := by
  rw [opened, h]
  rfl

/-- A file that is not there yet is read like an empty one. -/
theorem replay_getD (leafFile : Option Bytes) :
    replay (some (leafFile.getD [])) = replay leafFile := by
  cases leafFile <;> rfl

end FileLog

/-! ## Calls that append -/

/-- What a call appends, once it gets that far, and what its surroundings decide of the write. -/
def LogMove.attempt (H : Host) {ι : Type} : LogMove ι → Option (ι × Bytes)
  | .append io leafData => some (io, leafData)
  | .buildSTH _ _ => none
  | .sealRecord recordKey core _ leafIo _ =>
    match signRecord H recordKey core with
    | .error _ => none
    | .ok (_, _, leafData) => some (leafIo, leafData)

namespace FileLog

variable {H : Host}

private theorem seal_log (recordKey : KeyPair) (core : RecordCoreV2) (clock : String)
    (leafIo headIo : WriteOutcome) (log : FileLog) :
    (EvidencePlane.seal H (evidenceLog H) recordKey core clock leafIo headIo log).2 =
      match signRecord H recordKey core with
      | .error _ => log
      | .ok (_, _, leafData) => (append H leafIo leafData log).2 := by
  rw [EvidencePlane.seal]
  cases signRecord H recordKey core with
  | error e => rfl
  | ok signed =>
    obtain ⟨record, binding, leafData⟩ := signed
    have happend : (evidenceLog H).append leafIo leafData log = append H leafIo leafData log := rfl
    simp only [happend]
    split
    · rename_i happended
      rw [happended]
    · rename_i landed after happended
      rw [happended]
      split
      · rename_i hhead
        exact (congrArg Prod.snd hhead).symm
      · rename_i hhead
        split <;> exact (congrArg Prod.snd hhead).symm

/-- All that a call does to a log in a file is the append it attempts. -/
theorem next_log (r : LogRun FileLog) (move : LogMove WriteOutcome) :
    (r.next H (evidenceLog H) move).log =
      match move.attempt H with
      | none => r.log
      | some (write, leafData) => (append H write leafData r.log).2 := by
  cases move with
  | append write leafData =>
    have happend : (evidenceLog H).append write leafData r.log = append H write leafData r.log := rfl
    rw [LogRun.next, LogMove.attempt, happend]
    split <;> (rename_i happended; exact (congrArg Prod.snd happended).symm)
  | buildSTH write timestamp =>
    rw [LogRun.next, LogMove.attempt]
    split <;> (rename_i hhead; exact (congrArg Prod.snd hhead).symm)
  | sealRecord recordKey core clock leafIo headIo =>
    have hseal := seal_log (H := H) recordKey core clock leafIo headIo r.log
    have hattempt : ∀ log, log = (match signRecord H recordKey core with
        | .error _ => r.log
        | .ok (_, _, leafData) => (append H leafIo leafData r.log).2) →
        log = match (LogMove.sealRecord recordKey core clock leafIo headIo).attempt H with
          | none => r.log
          | some (write, leafData) => (append H write leafData r.log).2 := by
      rintro log rfl
      rw [LogMove.attempt]
      cases signRecord H recordKey core <;> rfl
    refine hattempt _ ?_
    rw [LogRun.next]
    split <;> (rename_i hsealed; rw [hsealed] at hseal; exact hseal)

end FileLog

end CoolSdk
