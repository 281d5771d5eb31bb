import CoolSdk.Nitro.Frames

/-!
# The host-side forwarder

Frames go from a source to a sink byte for byte. The decoder is pushed each chunk of the source,
and what a push returns is written before the next chunk is taken; a framing error stops it. A
push that throws returns no frames, so those in front of the error in its own chunk are lost.
-/

namespace CoolSdk.Nitro

/-- The frames that the pushes before the first failure return, and the failure. -/
def FrameDecoder.delivered : FrameDecoder → List Bytes → List Frame × Option FrameError
  | _, [] => ([], none)
  | d, chunk :: chunks =>
    match d.push chunk with
    | (.error e, _) => ([], some e)
    | (.ok out, d') => (out ++ (delivered d' chunks).1, (delivered d' chunks).2)

/-- What a source does. -/
inductive SourceEvent
  | data (chunk : Bytes)
  | ended
  | error (message : String)

/-- Why forwarding stops short. -/
inductive ForwardError
  | framing (e : FrameError)
  | midFrame (pending : Nat)
  | source (message : String)
  deriving DecidableEq, Repr

/-- What the promise of a forwarder settles to. -/
inductive ForwardOutcome
  | resolved (frames bytes : Nat)
  | rejected (e : ForwardError)
  deriving DecidableEq, Repr

/-- What was written to the sink, in order, and how the promise settled, if it did. -/
structure Forwarded where
  written : List Bytes
  outcome : Option ForwardOutcome
  deriving DecidableEq, Repr

/-- The handlers of a source, from a decoder and the counts so far. The sink's backpressure
delays the source and changes nothing that is written. -/
def forward : FrameDecoder → Nat → Nat → List SourceEvent → Forwarded
  | _, _, _, [] => ⟨[], none⟩
  | d, frames, bytes, .data chunk :: events =>
    match d.push chunk with
    -- the source is destroyed
    | (.error e, _) => ⟨[], some (.rejected (.framing e))⟩
    | (.ok out, d') =>
      let run := forward d' (frames + out.length)
        (bytes + (out.map fun f => f.raw.length).sum) events
      { run with written := out.map Frame.raw ++ run.written }
  | d, frames, bytes, .ended :: _ =>
    if 0 < d.pending then ⟨[], some (.rejected (.midFrame d.pending))⟩
    else ⟨[], some (.resolved frames bytes)⟩
  | _, _, _, .error message :: _ => ⟨[], some (.rejected (.source message))⟩

def forwardFrames (events : List SourceEvent) : Forwarded := forward .empty 0 0 events

/-- Where a stream of so many bytes of frames and a bad header behind them is cut: the chunk that
completes the header starts behind the last frame. -/
def HeaderApart (size : Nat) (chunks : List Bytes) : Prop :=
  ∃ front chunk back, chunks = front ++ chunk :: back ∧ size ≤ front.flatten.length ∧
    front.flatten.length < size + HEADER ∧ size + HEADER ≤ (front.flatten ++ chunk).length

variable {b c bad : Bytes} {e : FrameError} {chunks : List Bytes}

theorem FrameDecoder.delivered_eq (chunks : List Bytes) (d : FrameDecoder) :
    d.delivered chunks = frameReader.delivered chunks d.buffer := by
  induction chunks generalizing d with
  | nil => rfl
  | cons chunk chunks ih =>
    rw [delivered, Reader.delivered, push]
    cases frameReader.drain (d.buffer ++ chunk) with
    | mk res left =>
      cases res with
      | error e => rfl
      | ok out => simp only [ih]

/-- The forwarder writes what the decoder delivers, and is rejected where the decoder fails. -/
theorem forward_delivered (d : FrameDecoder) (frames bytes : Nat) {events : List SourceEvent}
    (h : (d.delivered chunks).2 = some e) :
    forward d frames bytes (chunks.map SourceEvent.data ++ events) =
      ⟨(d.delivered chunks).1.map Frame.raw, some (.rejected (.framing e))⟩ := by
  induction chunks generalizing d frames bytes with
  | nil => cases h
  | cons chunk chunks ih =>
    rw [FrameDecoder.delivered] at h
    rw [List.map_cons, List.cons_append, forward, FrameDecoder.delivered]
    cases hpush : d.push chunk with
    | mk res d' =>
      rw [hpush] at h
      cases res with
      | error e' =>
        cases h
        rfl
      | ok out => simp only [ih d' _ _ h, List.map_append]

/-! ## Bad headers -/

/-- A failure is one of a whole header. -/
private theorem header_of_failure (h : readFrame b = .error e) : HEADER ≤ b.length := by
  rw [readFrame] at h
  by_contra hlong
  rw [if_neg hlong] at h
  cases h

private theorem readFrame_short (h : b.length < HEADER) : readFrame b = .ok none := by
  rw [readFrame, if_neg (Nat.not_le.mpr h)]

/-- A whole header fails by itself. -/
private theorem failure_of_append (hlong : HEADER ≤ b.length)
    (h : readFrame (b ++ c) = .error e) : readFrame b = .error e := by
  obtain ⟨hget, hlen⟩ := header_append hlong c
  have hlong' : HEADER ≤ (b ++ c).length := by
    rw [List.length_append]
    omega
  rw [readFrame, if_pos hlong', hget 0 (by decide), hget 1 (by decide), hget 2 (by decide),
    hget 3 (by decide), hlen] at h
  rw [readFrame, if_pos hlong]
  dsimp only at h ⊢
  split_ifs at h ⊢ <;> exact h

/-- A stream that is long enough has a chunk that completes its first symbols. -/
theorem exists_completing {n : Nat} (hpos : 0 < n) (h : n ≤ chunks.flatten.length) :
    ∃ front chunk back, chunks = front ++ chunk :: back ∧ front.flatten.length < n ∧
      n ≤ (front.flatten ++ chunk).length := by
  induction chunks generalizing n with
  | nil =>
    rw [List.flatten_nil, List.length_nil] at h
    omega
  | cons chunk chunks ih =>
    rw [List.flatten_cons, List.length_append] at h
    by_cases hchunk : n ≤ chunk.length
    · exact ⟨[], chunk, chunks, rfl, hpos, hchunk⟩
    · obtain ⟨front, last, back, rfl, hlt, hle⟩ := ih (n := n - chunk.length) (by omega) (by omega)
      refine ⟨chunk :: front, last, back, rfl, ?_, ?_⟩
      · rw [List.flatten_cons, List.length_append]
        omega
      · rw [List.flatten_cons, List.append_assoc, List.length_append]
        omega

/-- The decoder gets past every front of a stream that does not hold the bad header. -/
private theorem drain_front {encs : List Bytes} {frames : List Frame} {front : Bytes}
    (h : List.Forall₂ frameReader.Encodes encs frames) (hfront : front <+: encs.flatten ++ bad)
    (hlt : front.length < encs.flatten.length + HEADER) :
    ∃ out left, frameReader.drain front = (.ok out, left) := by
  have hempty : frameReader.read [] = .ok none := rfl
  have hall := Reader.drain_encodings h hempty
  rw [List.append_nil] at hall
  by_cases hle : encs.flatten.length ≤ front.length
  · obtain ⟨q, rfl⟩ := List.prefix_of_prefix_length_le ⟨_, rfl⟩ hfront hle
    rw [List.length_append] at hlt
    have hq : frameReader.read q = .ok none := readFrame_short (by omega)
    exact ⟨frames, q, Reader.drain_encodings h hq⟩
  · obtain ⟨tail, htail⟩ := List.prefix_of_prefix_length_le hfront ⟨_, rfl⟩ (by omega)
    rw [← htail] at hall
    cases hdrain : frameReader.drain front with
    | mk res left =>
      cases res with
      | error e =>
        rw [Reader.drain_append_error hdrain] at hall
        cases hall
      | ok out => exact ⟨out, left, rfl⟩

/-- It fails at the bad header once that is there. -/
private theorem drain_header {encs : List Bytes} {frames : List Frame} {front : Bytes}
    (h : List.Forall₂ frameReader.Encodes encs frames) (hbad : readFrame bad = .error e)
    (hfront : front <+: encs.flatten ++ bad) (hle : encs.flatten.length + HEADER ≤ front.length) :
    ∃ left, frameReader.drain front = (.error e, left) := by
  have hempty : frameReader.read [] = .ok none := rfl
  have hall := Reader.drain_encodings h hempty
  rw [List.append_nil] at hall
  obtain ⟨q, rfl⟩ := List.prefix_of_prefix_length_le ⟨_, rfl⟩ hfront (by omega)
  rw [List.length_append] at hle
  obtain ⟨tail, htail⟩ := hfront
  rw [List.append_assoc] at htail
  rw [← List.append_cancel_left htail] at hbad
  have hq : frameReader.read q = .error e := failure_of_append (by omega) hbad
  rw [Reader.drain_append hall, List.nil_append, Reader.drain_error hq]
  exact ⟨q, rfl⟩

/-- What is delivered, from the cut at the chunk that completes the bad header. -/
private theorem delivered_of_cut {encs : List Bytes} {frames : List Frame}
    {front back : List Bytes} {chunk : Bytes} (h : List.Forall₂ frameReader.Encodes encs frames)
    (hbad : readFrame bad = .error e)
    (hflat : (front ++ chunk :: back).flatten = encs.flatten ++ bad)
    (hlt : front.flatten.length < encs.flatten.length + HEADER)
    (hle : encs.flatten.length + HEADER ≤ (front.flatten ++ chunk).length) :
    ∃ out, FrameDecoder.empty.delivered (front ++ chunk :: back) = (out, some e) ∧
      (out = frames ↔ encs.flatten.length ≤ front.flatten.length) := by
  have hfront : front.flatten <+: encs.flatten ++ bad := by
    rw [← hflat, List.flatten_append]
    exact ⟨_, rfl⟩
  have hchunk : front.flatten ++ chunk <+: encs.flatten ++ bad := by
    rw [← hflat, List.flatten_append, List.flatten_cons, ← List.append_assoc]
    exact ⟨_, rfl⟩
  obtain ⟨out, left, hout⟩ := drain_front h hfront hlt
  obtain ⟨last, hlast⟩ := drain_header h hbad hchunk hle
  obtain ⟨hdelivered, hiff⟩ := Reader.delivered_iff h rfl hbad hflat hout hlast
  exact ⟨out, (FrameDecoder.delivered_eq _ _).trans hdelivered, hiff⟩

/-- **Frames in front of a framing error**: for every stream of sendable messages with a bad
header behind them and every way of cutting it, the decoder delivers all the messages before it
fails, and the forwarder writes them all before it is rejected, exactly where the chunk that
completes the bad header starts behind the last frame. -/
theorem frames_precede_error_iff (messages : List Message)
    (hmessages : ∀ m ∈ messages, m.Sendable) (hbad : readFrame bad = .error e) :
    ∃ encodings, messages.mapM Message.encode = .ok encodings ∧
      ∀ (chunks : List Bytes) (events : List SourceEvent),
        chunks.flatten = encodings.flatten ++ bad →
        (FrameDecoder.empty.delivered chunks =
            (List.zipWith Message.received messages encodings, some e) ∧
          forwardFrames (chunks.map SourceEvent.data ++ events) =
            ⟨encodings, some (.rejected (.framing e))⟩ ↔
        HeaderApart encodings.flatten.length chunks) := by
  obtain ⟨encodings, hencs, hreads⟩ := encode_all hmessages
  refine ⟨encodings, hencs, fun chunks events hchunks => ?_⟩
  constructor
  · rintro ⟨hdelivered, _⟩
    have hlong : encodings.flatten.length + HEADER ≤ chunks.flatten.length := by
      rw [hchunks, List.length_append]
      have hheader := header_of_failure hbad
      omega
    have hpos : 0 < encodings.flatten.length + HEADER := by
      rw [HEADER]
      omega
    obtain ⟨front, chunk, back, rfl, hlt, hle⟩ := exists_completing hpos hlong
    obtain ⟨out, hout, hiff⟩ := delivered_of_cut hreads hbad hchunks hlt hle
    rw [hout] at hdelivered
    exact ⟨front, chunk, back, rfl, hiff.mp (Prod.mk.inj hdelivered).1, hlt, hle⟩
  · rintro ⟨front, chunk, back, rfl, hall, hlt, hle⟩
    obtain ⟨out, hout, hiff⟩ := delivered_of_cut hreads hbad hchunks hlt hle
    rw [hiff.mpr hall] at hout
    refine ⟨hout, ?_⟩
    have hraw : (List.zipWith Message.received messages encodings).map Frame.raw = encodings :=
      Reader.map_raw_of_encodes hreads
    rw [forwardFrames, forward_delivered .empty 0 0 (congrArg Prod.snd hout), hout, hraw]

private theorem sendable_hello : (⟨1, [7]⟩ : Message).Sendable := ⟨by decide, by decide⟩

private theorem bad_zeros : readFrame (List.replicate 8 0) =
    .error ⟨.bad_magic, "stream is not CooL frames"⟩ := by decide

/-- A frame and a bad header in chunks of their own. -/
theorem frames_precede_error_apart :
    ∃ encodings, [(⟨1, [7]⟩ : Message)].mapM Message.encode = .ok encodings ∧
      FrameDecoder.empty.delivered [encodings.flatten, List.replicate 8 0] =
        (List.zipWith Message.received [⟨1, [7]⟩] encodings,
          some ⟨.bad_magic, "stream is not CooL frames"⟩) := by
  obtain ⟨encodings, hencs, hall⟩ := frames_precede_error_iff [⟨1, [7]⟩]
    (List.forall_mem_singleton.mpr sendable_hello) bad_zeros
  have hflat : [encodings.flatten, List.replicate 8 0].flatten =
      encodings.flatten ++ List.replicate 8 0 := by simp
  refine ⟨encodings, hencs, ((hall _ [] hflat).mpr ?_).1⟩
  refine ⟨[encodings.flatten], List.replicate 8 0, [], rfl, ?_, ?_, ?_⟩ <;> simp [HEADER]

/-- The same frame and header in one chunk: nothing is delivered, and nothing is written. -/
theorem error_swallows_frame :
    ∃ frame, (⟨1, [7]⟩ : Message).encode = .ok frame ∧
      FrameDecoder.empty.delivered [frame ++ List.replicate 8 0] =
        ([], some ⟨.bad_magic, "stream is not CooL frames"⟩) ∧
      forwardFrames [.data (frame ++ List.replicate 8 0)] =
        ⟨[], some (.rejected (.framing ⟨.bad_magic, "stream is not CooL frames"⟩))⟩ ∧
      FrameDecoder.empty.delivered [frame, List.replicate 8 0] =
        ([Message.received ⟨1, [7]⟩ frame],
          some ⟨.bad_magic, "stream is not CooL frames"⟩) := by
  obtain ⟨frame, hframe, hreads⟩ := encode_sendable sendable_hello
  have hall : List.Forall₂ frameReader.Encodes [frame] [Message.received ⟨1, [7]⟩ frame] :=
    .cons hreads .nil
  have hwhole : frame ++ List.replicate 8 0 <+: [frame].flatten ++ List.replicate 8 0 := by simp
  have hlong : [frame].flatten.length + HEADER ≤ (frame ++ List.replicate 8 0).length := by
    simp [HEADER]
  have hone : FrameDecoder.empty.delivered [frame ++ List.replicate 8 0] =
      ([], some ⟨.bad_magic, "stream is not CooL frames"⟩) := by
    obtain ⟨left, hdrain⟩ := drain_header hall bad_zeros hwhole hlong
    rw [FrameDecoder.delivered_eq, Reader.delivered, FrameDecoder.empty, List.nil_append, hdrain]
  have hforward : forwardFrames ([frame ++ List.replicate 8 0].map SourceEvent.data ++ []) = _ :=
    forward_delivered .empty 0 0 (congrArg Prod.snd hone)
  rw [hone] at hforward
  refine ⟨frame, hframe, hone, hforward, ?_⟩
  have hflat : ([frame] ++ List.replicate 8 0 :: []).flatten =
      [frame].flatten ++ List.replicate 8 0 := by simp
  obtain ⟨out, hout, hiff⟩ := delivered_of_cut hall bad_zeros hflat (by simp [HEADER])
    (by simp [HEADER])
  rw [hiff.mpr le_rfl] at hout
  exact hout

end CoolSdk.Nitro
