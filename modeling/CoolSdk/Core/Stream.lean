import Mathlib.Data.List.Forall2

/-!
# Incremental decoding

A reader takes one message off the front of a buffer, or needs more, or fails. A decoder keeps
the bytes not yet read and takes off it what it can each time a chunk arrives. What a stream
decodes to does not depend on where it was cut, and no byte is lost between what was returned
and what is pending.
-/

namespace CoolSdk

universe u v w

/-- A reader of the message at the front of a buffer. -/
structure Reader (β : Type u) (α : Type v) (ε : Type w) where
  /-- The message and the rest of the buffer; nothing where the message is incomplete. -/
  read : List β → Except ε (Option (α × List β))
  /-- The symbols a message was read from. -/
  raw : α → List β
  /-- A message is at least one symbol long, and reading it leaves the symbols behind it. -/
  split {b rest : List β} {a : α} : read b = .ok (some (a, rest)) → b = raw a ++ rest ∧ raw a ≠ []
  /-- What was read stays so as the buffer grows. -/
  message {b rest : List β} {a : α} (c : List β) :
    read b = .ok (some (a, rest)) → read (b ++ c) = .ok (some (a, rest ++ c))
  /-- A failure stays one as the buffer grows. -/
  failure {b : List β} {e : ε} (c : List β) : read b = .error e → read (b ++ c) = .error e

namespace Reader

variable {β : Type u} {α : Type v} {ε : Type w} (R : Reader β α ε)

theorem length_lt {b rest : List β} {a : α} (h : R.read b = .ok (some (a, rest))) :
    rest.length < b.length := by
  obtain ⟨hb, hne⟩ := R.split h
  have hpos := List.length_pos_iff.mpr hne
  rw [hb, List.length_append]
  omega

/-- Hand the values of a success on, keeping what is left of the buffer. -/
def andThen (f : List α → List α) (p : Except ε (List α) × List β) : Except ε (List α) × List β :=
  (p.1.map f, p.2)

theorem andThen_eq_ok {f : List α → List α} {p : Except ε (List α) × List β} {out : List α}
    {left : List β} :
    andThen f p = (.ok out, left) ↔ ∃ more, p = (.ok more, left) ∧ f more = out := by
  obtain ⟨res, rest⟩ := p
  cases res with
  | error e =>
    constructor
    · intro h
      cases h
    · rintro ⟨more, h, _⟩
      cases h
  | ok more =>
    constructor
    · intro h
      cases h
      exact ⟨more, rfl, rfl⟩
    · rintro ⟨more', h, hf⟩
      cases h
      rw [← hf]
      rfl

theorem andThen_andThen (f g : List α → List α) (p : Except ε (List α) × List β) :
    andThen f (andThen g p) = andThen (fun out => f (g out)) p := by
  obtain ⟨res, rest⟩ := p
  cases res <;> rfl

theorem andThen_id (p : Except ε (List α) × List β) : andThen (fun out => out) p = p := by
  obtain ⟨res, rest⟩ := p
  cases res <;> rfl

/-- Read messages off a buffer until one is incomplete; a failure leaves the buffer at it. -/
def drain (buffer : List β) : Except ε (List α) × List β :=
  match _h : R.read buffer with
  | .error e => (.error e, buffer)
  | .ok none => (.ok [], buffer)
  | .ok (some (a, rest)) => andThen (a :: ·) (drain rest)
termination_by buffer.length
decreasing_by exact R.length_lt _h

variable {R} {b left rest : List β} {a : α} {e : ε} {out : List α}

theorem drain_error (h : R.read b = .error e) : R.drain b = (.error e, b) := by
  rw [drain]
  split <;> simp_all

theorem drain_none (h : R.read b = .ok none) : R.drain b = (.ok [], b) := by
  rw [drain]
  split <;> simp_all

theorem drain_some (h : R.read b = .ok (some (a, rest))) :
    R.drain b = andThen (a :: ·) (R.drain rest) := by
  rw [drain]
  split <;> simp_all

/-- The loop's cases: it fails at once, stops at once, or goes on behind a message. -/
theorem drain_induction {p : List β → Prop}
    (error : ∀ b e, R.read b = .error e → p b) (none : ∀ b, R.read b = .ok none → p b)
    (some : ∀ b a rest, R.read b = .ok (some (a, rest)) → p rest → p b) (b : List β) : p b := by
  induction hn : b.length using Nat.strongRecOn generalizing b with
  | ind n ih =>
    cases h : R.read b with
    | error e => exact error b e h
    | ok m =>
      cases m with
      | none => exact none b h
      | some m =>
        obtain ⟨a, rest⟩ := m
        apply some b a rest h
        exact ih rest.length (hn ▸ R.length_lt h) rest rfl

/-- What is left over is an incomplete message. -/
theorem read_left (h : R.drain b = (.ok out, left)) : R.read left = .ok none := by
  induction b using R.drain_induction generalizing out with
  | error b e he =>
    rw [drain_error he] at h
    cases h
  | none b hb =>
    rw [drain_none hb] at h
    cases h
    exact hb
  | some b a rest hb ih =>
    rw [drain_some hb] at h
    obtain ⟨more, hrest, _⟩ := andThen_eq_ok.mp h
    exact ih hrest

/-- Every symbol was returned or is left over. -/
theorem drain_conserves (h : R.drain b = (.ok out, left)) :
    b = (out.map R.raw).flatten ++ left := by
  induction b using R.drain_induction generalizing out with
  | error b e he =>
    rw [drain_error he] at h
    cases h
  | none b hb =>
    rw [drain_none hb] at h
    cases h
    rfl
  | some b a rest hb ih =>
    rw [drain_some hb] at h
    obtain ⟨more, hrest, rfl⟩ := andThen_eq_ok.mp h
    rw [(R.split hb).1, ih hrest, List.map_cons, List.flatten_cons, List.append_assoc]

/-- Draining a longer buffer goes on where draining its front stopped. -/
theorem drain_append (h : R.drain b = (.ok out, left)) (c : List β) :
    R.drain (b ++ c) = andThen (out ++ ·) (R.drain (left ++ c)) := by
  induction b using R.drain_induction generalizing out with
  | error b e he =>
    rw [drain_error he] at h
    cases h
  | none b hb =>
    rw [drain_none hb] at h
    cases h
    exact (andThen_id _).symm
  | some b a rest hb ih =>
    rw [drain_some hb] at h
    obtain ⟨more, hrest, rfl⟩ := andThen_eq_ok.mp h
    rw [drain_some (R.message c hb), ih hrest, andThen_andThen]
    rfl

/-- A failure in a buffer's front is one of the whole buffer. -/
theorem drain_append_error (h : R.drain b = (.error e, left)) (c : List β) :
    R.drain (b ++ c) = (.error e, left ++ c) := by
  induction b using R.drain_induction with
  | error b e' he =>
    rw [drain_error he] at h
    cases h
    exact drain_error (R.failure c he)
  | none b hb =>
    rw [drain_none hb] at h
    cases h
  | some b a rest hb ih =>
    rw [drain_some hb] at h
    cases hrest : R.drain rest with
    | mk res mid =>
      rw [hrest] at h
      cases res with
      | error e' =>
        cases h
        rw [drain_some (R.message c hb), ih hrest]
        rfl
      | ok more => cases h

variable (R)

/-- Drain after each chunk, up to the first failure. -/
def run : List (List β) → List β → Except ε (List α) × List β
  | [], buffer => (.ok [], buffer)
  | chunk :: chunks, buffer =>
    match R.drain (buffer ++ chunk) with
    | (.error e, left) => (.error e, left)
    | (.ok out, left) => andThen (out ++ ·) (run chunks left)

variable {R}

/-- A run that succeeds does so at its first chunk and behind it. -/
theorem run_cons_eq_ok {chunk : List β} {chunks : List (List β)} :
    R.run (chunk :: chunks) b = (.ok out, left) ↔ ∃ first mid more,
      R.drain (b ++ chunk) = (.ok first, mid) ∧ R.run chunks mid = (.ok more, left) ∧
        first ++ more = out := by
  rw [run]
  cases hd : R.drain (b ++ chunk) with
  | mk res mid =>
    cases res with
    | error e =>
      constructor
      · intro h
        cases h
      · rintro ⟨first, mid', more, h, _⟩
        cases h
    | ok first =>
      constructor
      · intro h
        obtain ⟨more, hmore, hout⟩ := andThen_eq_ok.mp h
        exact ⟨first, mid, more, rfl, hmore, hout⟩
      · rintro ⟨first', mid', more, h, hmore, hout⟩
        cases h
        exact andThen_eq_ok.mpr ⟨more, hmore, hout⟩

/-- **Where a stream is cut does not matter**: its chunks decode to what it decodes to at once. -/
theorem run_flatten (hb : R.read b = .ok none) (chunks : List (List β))
    (h : R.drain (b ++ chunks.flatten) = (.ok out, left)) : R.run chunks b = (.ok out, left) := by
  induction chunks generalizing b out with
  | nil =>
    rw [List.flatten_nil, List.append_nil, drain_none hb] at h
    exact h
  | cons chunk chunks ih =>
    rw [List.flatten_cons, ← List.append_assoc] at h
    cases hd : R.drain (b ++ chunk) with
    | mk res mid =>
      cases res with
      | error e =>
        rw [drain_append_error hd] at h
        cases h
      | ok first =>
        rw [drain_append hd] at h
        obtain ⟨more, hmore, hout⟩ := andThen_eq_ok.mp h
        exact run_cons_eq_ok.mpr ⟨first, mid, more, hd, ih (read_left hd) hmore, hout⟩

/-- The first chunks of a stream that decodes decode themselves. -/
theorem run_front {front back : List (List β)} (h : R.run (front ++ back) b = (.ok out, left)) :
    ∃ first mid, R.run front b = (.ok first, mid) := by
  induction front generalizing b out with
  | nil => exact ⟨[], b, rfl⟩
  | cons chunk front ih =>
    obtain ⟨first, mid, more, hd, hmore, _⟩ := run_cons_eq_ok.mp h
    obtain ⟨next, last, hnext⟩ := ih hmore
    exact ⟨first ++ next, last, run_cons_eq_ok.mpr ⟨first, mid, next, hd, hnext, rfl⟩⟩

/-- After any chunks, every symbol that arrived was returned or is pending, and what is pending
is an incomplete message. -/
theorem run_conserves (hb : R.read b = .ok none) {chunks : List (List β)}
    (h : R.run chunks b = (.ok out, left)) :
    b ++ chunks.flatten = (out.map R.raw).flatten ++ left ∧ R.read left = .ok none := by
  induction chunks generalizing b out with
  | nil =>
    cases h
    exact ⟨List.append_nil _, hb⟩
  | cons chunk chunks ih =>
    obtain ⟨first, mid, more, hd, hmore, rfl⟩ := run_cons_eq_ok.mp h
    obtain ⟨heq, hnone⟩ := ih (read_left hd) hmore
    refine ⟨?_, hnone⟩
    rw [List.flatten_cons, ← List.append_assoc, drain_conserves hd, List.append_assoc, heq,
      List.map_append, List.flatten_append, List.append_assoc]

variable (R)

/-- What is handed on chunk by chunk, up to the first failure: a chunk that fails hands nothing
on, not even the messages read before the failure. -/
def delivered : List (List β) → List β → List α × Option ε
  | [], _ => ([], none)
  | chunk :: chunks, buffer =>
    match R.drain (buffer ++ chunk) with
    | (.error e, _) => ([], some e)
    | (.ok out, left) => (out ++ (delivered chunks left).1, (delivered chunks left).2)

variable {R}

/-- What is delivered is what the chunks before the failing one decode to. -/
theorem delivered_of_failing {front back : List (List β)} {chunk last : List β}
    (hfront : R.run front b = (.ok out, left)) (hchunk : R.drain (left ++ chunk) = (.error e, last)) :
    R.delivered (front ++ chunk :: back) b = (out, some e) := by
  induction front generalizing b out with
  | nil =>
    cases hfront
    rw [List.nil_append, delivered, hchunk]
  | cons c front ih =>
    obtain ⟨first, mid, more, hd, hmore, rfl⟩ := run_cons_eq_ok.mp hfront
    rw [List.cons_append, delivered, hd]
    simp only [ih hmore]

variable (R)

/-- The given symbols are the given message, whatever follows them. -/
def Encodes (enc : List β) (a : α) : Prop := ∀ rest, R.read (enc ++ rest) = .ok (some (a, rest))

variable {R}

/-- A proper front of a message is incomplete. -/
theorem Encodes.read_front {enc part : List β} (h : R.Encodes enc a) (hp : part <+: enc)
    (hne : part ≠ enc) : R.read part = .ok none := by
  obtain ⟨tail, rfl⟩ := hp
  have hwhole := h []
  rw [List.append_nil] at hwhole
  cases hr : R.read part with
  | error e =>
    rw [R.failure tail hr] at hwhole
    cases hwhole
  | ok m =>
    cases m with
    | none => rfl
    | some m =>
      rw [R.message tail hr] at hwhole
      have hrest := (Prod.mk.inj (Option.some.inj (Except.ok.inj hwhole))).2
      rw [(List.append_eq_nil_iff.mp hrest).2, List.append_nil] at hne
      exact (hne rfl).elim

/-- A concatenation of messages and an incomplete one reads back. -/
theorem drain_encodings {encs : List (List β)} {as : List α} {part : List β}
    (h : List.Forall₂ R.Encodes encs as) (hp : R.read part = .ok none) :
    R.drain (encs.flatten ++ part) = (.ok as, part) := by
  induction h with
  | nil => exact drain_none hp
  | cons henc _ ih =>
    rw [List.flatten_cons, List.append_assoc, drain_some (henc _), ih]
    rfl

/-- A message is the symbols that encode it. -/
theorem Encodes.raw_eq {enc : List β} (h : R.Encodes enc a) : R.raw a = enc := by
  have hsplit := (R.split (h [])).1
  rw [List.append_nil, List.append_nil] at hsplit
  exact hsplit.symm

theorem map_raw_of_encodes {encs : List (List β)} {as : List α}
    (h : List.Forall₂ R.Encodes encs as) : as.map R.raw = encs := by
  induction h with
  | nil => rfl
  | cons henc _ ih => rw [List.map_cons, henc.raw_eq, ih]

/-- **A failure behind a stream of messages**: all of them are delivered exactly where the chunks
before the one that fails hold them all. -/
theorem delivered_iff {encs : List (List β)} {as : List α} {bad chunk last : List β} {e' : ε}
    {front back : List (List β)} (h : List.Forall₂ R.Encodes encs as)
    (hempty : R.read [] = .ok none) (hbad : R.read bad = .error e)
    (hflat : (front ++ chunk :: back).flatten = encs.flatten ++ bad)
    (hfront : R.drain front.flatten = (.ok out, left))
    (hchunk : R.drain (front.flatten ++ chunk) = (.error e', last)) :
    R.delivered (front ++ chunk :: back) [] = (out, some e') ∧
      (out = as ↔ encs.flatten.length ≤ front.flatten.length) := by
  constructor
  · have hrun : R.run front [] = (.ok out, left) := run_flatten hempty front hfront
    rw [drain_append hfront] at hchunk
    cases hrest : R.drain (left ++ chunk) with
    | mk res rest =>
      rw [hrest] at hchunk
      cases res with
      | error e'' =>
        cases hchunk
        exact delivered_of_failing hrun hrest
      | ok more => cases hchunk
  · constructor
    · rintro rfl
      have hlength := congrArg List.length (drain_conserves hfront)
      rw [map_raw_of_encodes h, List.length_append] at hlength
      omega
    · intro hle
      rw [List.flatten_append] at hflat
      obtain ⟨q, hq⟩ := List.prefix_of_prefix_length_le ⟨_, rfl⟩ ⟨_, hflat⟩ hle
      rw [← hq, List.append_assoc] at hflat
      have hrest := List.append_cancel_left hflat
      have hall := drain_encodings h hempty
      rw [List.append_nil] at hall
      rw [← hq, drain_append hall, List.nil_append] at hfront
      obtain ⟨more, hmore, rfl⟩ := andThen_eq_ok.mp hfront
      -- what is behind the messages starts no further one
      cases hread : R.read q with
      | error e'' =>
        rw [drain_error hread] at hmore
        cases hmore
      | ok m =>
        cases m with
        | none =>
          rw [drain_none hread] at hmore
          cases hmore
          exact List.append_nil _
        | some m =>
          rw [← hrest, R.message _ hread] at hbad
          cases hbad

end Reader

end CoolSdk
