import CoolSdk.Core.Cbor
import CoolSdk.Core.Fallible
import CoolSdk.Core.Stream
import CoolSdk.Runtime.Value

/-!
# Framing of the enclave link

A frame is a magic number, a version, a type, a length and a payload. The decoder is fed
arbitrary chunks and returns whole frames, with the exact bytes they had on the wire.
-/

namespace CoolSdk.Nitro

def FRAME_VERSION : Nat := 1

def MAX_FRAME_BYTES : Nat := 1024 * 1024

def MAGIC0 : UInt8 := 0xc0

def MAGIC1 : UInt8 := 0x01

def HEADER : Nat := 8

/-- The values of `FrameType`: hello, receipt, ack, register and error. -/
def FrameType : List Nat := [1, 2, 3, 4, 5]

structure Frame where
  type : Nat
  payload : Bytes
  /-- The exact bytes on the wire, header included. -/
  raw : Bytes
  deriving DecidableEq, Repr

inductive FrameErrorReason
  | bad_magic
  | unsupported_version
  | frame_too_large
  | unknown_type
  deriving DecidableEq, Repr

structure FrameError where
  reason : FrameErrorReason
  detail : String
  deriving DecidableEq, Repr

/-- Writing a type to a byte keeps it modulo 256. -/
def encodeFrame (type : Nat) (payload : Bytes) : Except FrameError Bytes :=
  if payload.length > MAX_FRAME_BYTES then
    .error ⟨.frame_too_large, s!"{payload.length} > {MAX_FRAME_BYTES}"⟩
  else
    .ok ([MAGIC0, MAGIC1, UInt8.ofNat FRAME_VERSION, UInt8.ofNat type] ++
      Cbor.bigEndian 4 payload.length ++ payload)

/-- The big-endian number in the four bytes from an offset on. -/
def getUint32 (b : Bytes) (offset : Nat) : Nat :=
  ((b.drop offset).take 4).foldl (fun acc byte => 256 * acc + byte.toNat) 0

/-- One pass of the decoder's loop: the frame at the front of the buffer and the bytes behind
it, nothing where the header or the payload is not there yet. -/
def readFrame (b : Bytes) : Except FrameError (Option (Frame × Bytes)) :=
  if HEADER ≤ b.length then
    let type := (b.getD 3 0).toNat
    let length := getUint32 b 4
    if b.getD 0 0 ≠ MAGIC0 ∨ b.getD 1 0 ≠ MAGIC1 then
      .error ⟨.bad_magic, "stream is not CooL frames"⟩
    else if (b.getD 2 0).toNat ≠ FRAME_VERSION then
      .error ⟨.unsupported_version,
        s!"frame version {(b.getD 2 0).toNat} (this side speaks {FRAME_VERSION})"⟩
    else if type ∉ FrameType then .error ⟨.unknown_type, s!"frame type {type}"⟩
    else if length > MAX_FRAME_BYTES then
      .error ⟨.frame_too_large, s!"declared {length} bytes > {MAX_FRAME_BYTES}"⟩
    else if b.length < HEADER + length then .ok none
    else
      let raw := b.take (HEADER + length)
      .ok (some (⟨type, raw.drop HEADER, raw⟩, b.drop (HEADER + length)))
  else .ok none

variable {b c rest : Bytes} {f : Frame} {e : FrameError}

/-- What the loop reads of a buffer's header. -/
theorem header_append (h : HEADER ≤ b.length) (c : Bytes) :
    (∀ i < 4, (b ++ c).getD i 0 = b.getD i 0) ∧ getUint32 (b ++ c) 4 = getUint32 b 4 := by
  rw [HEADER] at h
  constructor
  · intro i hi
    rw [List.getD_eq_getElem?_getD, List.getD_eq_getElem?_getD, List.getElem?_append_left (by omega)]
  · rw [getUint32, getUint32, List.drop_append_of_le_length (by omega),
      List.take_append_of_le_length (by rw [List.length_drop]; omega)]

private theorem readFrame_eq_some :
    readFrame b = .ok (some (f, rest)) ↔
      HEADER ≤ b.length ∧ b.getD 0 0 = MAGIC0 ∧ b.getD 1 0 = MAGIC1 ∧
        (b.getD 2 0).toNat = FRAME_VERSION ∧ (b.getD 3 0).toNat ∈ FrameType ∧
        getUint32 b 4 ≤ MAX_FRAME_BYTES ∧ HEADER + getUint32 b 4 ≤ b.length ∧
        f = ⟨(b.getD 3 0).toNat, (b.take (HEADER + getUint32 b 4)).drop HEADER,
          b.take (HEADER + getUint32 b 4)⟩ ∧ rest = b.drop (HEADER + getUint32 b 4) := by
  rw [readFrame]
  split_ifs <;> grind

/-- A buffer that is no whole frame yet is shorter than the largest one. -/
theorem length_of_readFrame_none (h : readFrame b = .ok none) :
    b.length < HEADER + MAX_FRAME_BYTES := by
  rw [readFrame] at h
  dsimp only at h
  split_ifs at h with hlong hmagic hversion htype hlarge hpart
  · omega
  · cases h
  · omega

private theorem readFrame_split (h : readFrame b = .ok (some (f, rest))) :
    b = f.raw ++ rest ∧ f.raw ≠ [] := by
  obtain ⟨hlong, _, _, _, _, _, _, rfl, rfl⟩ := readFrame_eq_some.mp h
  refine ⟨(List.take_append_drop _ b).symm, fun hnil => ?_⟩
  have hl := congrArg List.length hnil
  rw [List.length_take, List.length_nil] at hl
  rw [HEADER] at hl hlong
  omega

private theorem readFrame_message (c : Bytes) (h : readFrame b = .ok (some (f, rest))) :
    readFrame (b ++ c) = .ok (some (f, rest ++ c)) := by
  obtain ⟨hlong, h0, h1, h2, h3, hmax, hwhole, rfl, rfl⟩ := readFrame_eq_some.mp h
  obtain ⟨hget, hlen⟩ := header_append hlong c
  apply readFrame_eq_some.mpr
  rw [hget 0 (by decide), hget 1 (by decide), hget 2 (by decide), hget 3 (by decide), hlen,
    List.length_append, List.take_append_of_le_length hwhole, List.drop_append_of_le_length hwhole]
  exact ⟨hlong.trans (Nat.le_add_right _ _), h0, h1, h2, h3, hmax,
    hwhole.trans (Nat.le_add_right _ _), rfl, rfl⟩

/-- The checks read the header only. -/
private theorem readFrame_failure (c : Bytes) (h : readFrame b = .error e) :
    readFrame (b ++ c) = .error e := by
  rw [readFrame] at h
  dsimp only at h
  split_ifs at h with hlong hmagic hversion htype hlarge
  all_goals
    obtain ⟨hget, hlen⟩ := header_append hlong c
    have hlong' : HEADER ≤ (b ++ c).length := by
      rw [List.length_append]
      omega
    rw [readFrame, if_pos hlong', hget 0 (by decide), hget 1 (by decide), hget 2 (by decide),
      hget 3 (by decide), hlen]
  · rw [if_pos hmagic, h]
  · rw [if_neg hmagic, if_pos hversion, h]
  · rw [if_neg hmagic, if_neg hversion, if_neg (not_not.mpr htype), if_pos hlarge, h]
  · rw [if_neg hmagic, if_neg hversion, if_pos htype, h]

/-- The frames of a stream, read off its front. -/
def frameReader : Reader UInt8 Frame FrameError where
  read := readFrame
  raw := Frame.raw
  split := readFrame_split
  message := readFrame_message
  failure := readFrame_failure

theorem read_frameReader (b : Bytes) : frameReader.read b = readFrame b := rfl

/-- The incremental decoder: the bytes it has not returned yet. -/
structure FrameDecoder where
  buffer : Bytes

namespace FrameDecoder

/-- A new decoder. -/
def empty : FrameDecoder := ⟨[]⟩

/-- The frames a chunk completes; a failure drops those found before it. -/
def push (d : FrameDecoder) (chunk : Bytes) : Except FrameError (List Frame) × FrameDecoder :=
  ((frameReader.drain (d.buffer ++ chunk)).1, ⟨(frameReader.drain (d.buffer ++ chunk)).2⟩)

def pending (d : FrameDecoder) : Nat := d.buffer.length

/-- The concatenated results of pushing chunks one after the other, up to the first failure. -/
def pushAll : FrameDecoder → List Bytes → Except FrameError (List Frame) × FrameDecoder
  | d, [] => (.ok [], d)
  | d, chunk :: chunks =>
    match d.push chunk with
    | (.error e, d') => (.error e, d')
    | (.ok out, d') => ((pushAll d' chunks).1.map (out ++ ·), (pushAll d' chunks).2)

/-- Pushing chunks is running the reader over them. -/
theorem pushAll_eq_run (chunks : List Bytes) (d : FrameDecoder) :
    d.pushAll chunks = ((frameReader.run chunks d.buffer).1,
      ⟨(frameReader.run chunks d.buffer).2⟩) := by
  induction chunks generalizing d with
  | nil => rfl
  | cons chunk chunks ih =>
    rw [pushAll, Reader.run, push]
    cases frameReader.drain (d.buffer ++ chunk) with
    | mk res left =>
      cases res with
      | error e => rfl
      | ok out =>
        simp only [ih]
        rfl

theorem pushAll_eq_ok {chunks : List Bytes} {d d' : FrameDecoder} {out : List Frame} :
    d.pushAll chunks = (.ok out, d') ↔
      frameReader.run chunks d.buffer = (.ok out, d'.buffer) := by
  rw [pushAll_eq_run]
  constructor
  · intro h
    obtain ⟨hout, rfl⟩ := Prod.mk.inj h
    exact Prod.ext hout rfl
  · intro h
    rw [h]

end FrameDecoder

/-- What is sent in one frame. -/
structure Message where
  type : Nat
  payload : Bytes

namespace Message

/-- A type both sides know and a payload that fits a frame. -/
def Sendable (m : Message) : Prop := m.type ∈ FrameType ∧ m.payload.length ≤ MAX_FRAME_BYTES

def encode (m : Message) : Except FrameError Bytes := encodeFrame m.type m.payload

/-- What the decoder returns of a message with the given encoding. -/
def received (m : Message) (encoding : Bytes) : Frame := ⟨m.type, m.payload, encoding⟩

end Message

private theorem foldl_bigEndian (k n acc : Nat) :
    (Cbor.bigEndian k n).foldl (fun acc byte => 256 * acc + byte.toNat) acc =
      256 ^ k * acc + n % 256 ^ k := by
  induction k generalizing n with
  | zero => simp [Cbor.bigEndian, Nat.mod_one]
  | succ k ih =>
    have hbyte : (UInt8.ofNat (n % 256)).toNat = n % 256 := by
      rw [UInt8.toNat_ofNat']
      exact Nat.mod_mod n 256
    have hsplit : n % 256 ^ (k + 1) = n % 256 + 256 * (n / 256 % 256 ^ k) := by
      rw [Nat.pow_succ', Nat.mod_mul]
    rw [Cbor.bigEndian, List.foldl_append, ih, List.foldl_cons, List.foldl_nil, hbyte, hsplit,
      Nat.pow_succ']
    lia

private theorem getUint32_bigEndian (a b c d : UInt8) {n : Nat} (hn : n < 256 ^ 4)
    (rest : Bytes) : getUint32 ([a, b, c, d] ++ Cbor.bigEndian 4 n ++ rest) 4 = n := by
  have hlen := Cbor.length_bigEndian 4 n
  rw [getUint32, List.append_assoc, List.drop_left' (by rfl), List.take_left' hlen, foldl_bigEndian,
    Nat.mul_zero, Nat.zero_add, Nat.mod_eq_of_lt hn]

private theorem frameType_lt : ∀ t ∈ FrameType, t < 2 ^ 8 := by decide

/-- A message of a known type that fits encodes, and its encoding reads back. -/
theorem encode_sendable {m : Message} (hm : m.Sendable) :
    ∃ encoding, m.encode = .ok encoding ∧
      frameReader.Encodes encoding (m.received encoding) := by
  obtain ⟨htype, hsize⟩ := hm
  refine ⟨_, if_neg (Nat.not_lt.mpr hsize), fun rest => ?_⟩
  set header := [MAGIC0, MAGIC1, UInt8.ofNat FRAME_VERSION, UInt8.ofNat m.type] ++
    Cbor.bigEndian 4 m.payload.length with hheader
  have hlong : header.length = HEADER := by
    rw [hheader, List.length_append, Cbor.length_bigEndian]
    rfl
  have hlen : getUint32 (header ++ m.payload ++ rest) 4 = m.payload.length := by
    rw [hheader, List.append_assoc]
    apply getUint32_bigEndian
    rw [MAX_FRAME_BYTES] at hsize
    omega
  have hbyte : (UInt8.ofNat m.type).toNat = m.type := by
    rw [UInt8.toNat_ofNat']
    apply Nat.mod_eq_of_lt
    exact frameType_lt m.type htype
  have hraw : (header ++ m.payload ++ rest).take (HEADER + m.payload.length) =
      header ++ m.payload := by
    apply List.take_left'
    rw [List.length_append, hlong]
  have hrest : (header ++ m.payload ++ rest).drop (HEADER + m.payload.length) = rest := by
    apply List.drop_left'
    rw [List.length_append, hlong]
  rw [read_frameReader]
  apply readFrame_eq_some.mpr
  rw [hlen, hraw, hrest, List.drop_left' hlong]
  have htype3 : ((header ++ m.payload ++ rest).getD 3 0).toNat = m.type := hbyte
  have hsize' : HEADER + m.payload.length ≤ (header ++ m.payload ++ rest).length := by
    rw [List.length_append, List.length_append, hlong]
    omega
  rw [htype3]
  exact ⟨(Nat.le_add_right _ _).trans hsize', rfl, rfl, rfl, htype, hsize, hsize', rfl, rfl⟩

/-- Sendable messages encode one after the other, and their encodings read back. -/
theorem encode_all {messages : List Message} (h : ∀ m ∈ messages, m.Sendable) :
    ∃ encodings, messages.mapM Message.encode = .ok encodings ∧
      List.Forall₂ frameReader.Encodes encodings
        (List.zipWith Message.received messages encodings) := by
  induction messages with
  | nil => exact ⟨[], rfl, .nil⟩
  | cons m messages ih =>
    rw [List.forall_mem_cons] at h
    obtain ⟨encoding, henc, hread⟩ := encode_sendable h.1
    obtain ⟨encodings, hencs, hreads⟩ := ih h.2
    refine ⟨encoding :: encodings, ?_, .cons hread hreads⟩
    rw [List.mapM_cons, henc, ok_bind, hencs, ok_bind]
    rfl

/-- Encodings that arrive at once are handed over at once. -/
theorem push_encodings {encodings : List Bytes} {frames : List Frame}
    (h : List.Forall₂ frameReader.Encodes encodings frames) :
    FrameDecoder.empty.push encodings.flatten = (.ok frames, .empty) := by
  have hempty : frameReader.read [] = .ok none := rfl
  have hdrain := Reader.drain_encodings h hempty
  rw [List.append_nil] at hdrain
  rw [FrameDecoder.push, FrameDecoder.empty, List.nil_append, hdrain]

/-- After every push the decoder holds what it has not returned yet, less than a whole frame. -/
theorem pending_of_pushAll {chunks : List Bytes} {out : List Frame} {d : FrameDecoder}
    (h : FrameDecoder.empty.pushAll chunks = (.ok out, d)) :
    d.pending + (out.map fun f => f.raw.length).sum = chunks.flatten.length ∧
      d.pending < HEADER + MAX_FRAME_BYTES := by
  have hempty : frameReader.read [] = .ok none := rfl
  obtain ⟨hbytes, hnone⟩ := Reader.run_conserves hempty (FrameDecoder.pushAll_eq_ok.mp h)
  constructor
  · rw [List.nil_append] at hbytes
    rw [hbytes, List.length_append, List.length_flatten, List.map_map, Nat.add_comm]
    rfl
  · rw [read_frameReader] at hnone
    exact length_of_readFrame_none hnone

/-- **Frames survive any chunking**: whatever messages are encoded one after the other, with the
front of a further one behind them, and wherever that stream is cut, the decoder returns exactly
those messages with their encodings, and after each chunk what is pending is what was not
returned yet, less than a whole frame. -/
theorem frames_survive_chunking (messages : List Message) (further : Message)
    (hmessages : ∀ m ∈ messages, m.Sendable) (hfurther : further.Sendable) :
    ∃ encodings last, messages.mapM Message.encode = .ok encodings ∧
      further.encode = .ok last ∧
      ∀ part, part <+: last → part ≠ last →
        ∀ chunks : List Bytes, chunks.flatten = encodings.flatten ++ part →
          (FrameDecoder.empty.pushAll chunks).1 =
            .ok (List.zipWith Message.received messages encodings) ∧
          ∀ front, front <+: chunks → ∃ out d,
            FrameDecoder.empty.pushAll front = (.ok out, d) ∧
            d.pending + (out.map fun f => f.raw.length).sum = front.flatten.length ∧
            d.pending < HEADER + MAX_FRAME_BYTES := by
  obtain ⟨encodings, hencs, hreads⟩ := encode_all hmessages
  obtain ⟨last, hlast, hread⟩ := encode_sendable hfurther
  refine ⟨encodings, last, hencs, hlast, fun part hpart hne chunks hchunks => ?_⟩
  have hempty : frameReader.read [] = .ok none := rfl
  have hrun : frameReader.run chunks [] =
      (.ok (List.zipWith Message.received messages encodings), part) := by
    apply Reader.run_flatten hempty
    rw [List.nil_append, hchunks]
    exact Reader.drain_encodings hreads (hread.read_front hpart hne)
  have hpush : FrameDecoder.empty.pushAll chunks =
      (.ok (List.zipWith Message.received messages encodings), ⟨part⟩) :=
    FrameDecoder.pushAll_eq_ok.mpr hrun
  refine ⟨congrArg Prod.fst hpush, ?_⟩
  rintro front ⟨back, rfl⟩
  obtain ⟨out, mid, hfront⟩ := Reader.run_front hrun
  have hpushed : FrameDecoder.empty.pushAll front = (.ok out, ⟨mid⟩) :=
    FrameDecoder.pushAll_eq_ok.mpr hfront
  exact ⟨out, ⟨mid⟩, hpushed, pending_of_pushAll hpushed⟩

/-- Two messages and the first bytes of a third, cut inside a header and at a frame's end. -/
theorem frames_survive_chunking_two :
    ∃ encodings last,
      [(⟨1, [7]⟩ : Message), ⟨3, []⟩].mapM Message.encode = .ok encodings ∧
      (⟨2, [9]⟩ : Message).encode = .ok last ∧
      ∀ part, part <+: last → part ≠ last →
        ∀ chunks : List Bytes, chunks.flatten = encodings.flatten ++ part →
          (FrameDecoder.empty.pushAll chunks).1 =
            .ok (List.zipWith Message.received [⟨1, [7]⟩, ⟨3, []⟩] encodings) ∧
          ∀ front, front <+: chunks → ∃ out d,
            FrameDecoder.empty.pushAll front = (.ok out, d) ∧
            d.pending + (out.map fun f => f.raw.length).sum = front.flatten.length ∧
            d.pending < HEADER + MAX_FRAME_BYTES := by
  apply frames_survive_chunking
  · intro m hm
    rcases List.mem_pair.mp hm with rfl | rfl
    · exact ⟨by decide, by decide⟩
    · exact ⟨by decide, by decide⟩
  · exact ⟨by decide, by decide⟩

end CoolSdk.Nitro
