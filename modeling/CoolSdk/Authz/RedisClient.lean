import CoolSdk.Authz.ReferenceRedis

/-!
# The Redis client

One connection, and a queue of the promises whose replies are outstanding. What a socket delivers
is appended to one buffer, and each reply at its front settles the promise at the front of the
queue. On a stream of replies the buffer holds the front of the first incomplete one, so that
where the stream was cut matters only to the limit on the buffer's length.
-/

namespace CoolSdk

/-- What a promise is settled with: a reply, or why there is none. -/
inductive Answer
  | reply (v : Reply)
  | failed (message : String)

/-- The client. Sockets are numbered as they are opened; `π` names the promises. -/
structure RedisClient (π : Type) where
  socket : Option Nat := none
  /-- The socket whose setup `#ready` awaits. -/
  ready : Option Nat := none
  buf : Bytes := []
  pending : List π := []

namespace RedisClient

variable {π : Type}

/-- `#fail`: no socket is left, and every promise is rejected. -/
def fail (c : RedisClient π) (message : String) : RedisClient π × List (π × Answer) :=
  ({}, c.pending.map fun p => (p, .failed message))

/-- The loop of the data handler. -/
def readReplies (H : RespHost) (mine : Bool) (c : RedisClient π) :
    RedisClient π × List (π × Answer) :=
  match _h : parseReply H c.buf with
  | .error e => c.fail e.message
  | .ok none => (c, [])
  | .ok (some (v, rest)) =>
    -- the queue has lost its first promise before the socket is looked at
    if !mine then ({ c with buf := rest, pending := c.pending.tail }, [])
    else
      match c.pending with
      | [] => fail { c with buf := rest } "unsolicited redis reply"
      | p :: pending =>
        let next := readReplies H mine { c with buf := rest, pending }
        (next.1, (p, .reply v) :: next.2)
termination_by c.buf.length
decreasing_by exact parseReply_length_lt _h

/-- The data handler of a socket. -/
def onData (H : RespHost) (c : RedisClient π) (sock : Nat) (chunk : Bytes) :
    RedisClient π × List (π × Answer) :=
  let c := { c with buf := c.buf ++ chunk }
  let mine := decide (c.socket = some sock)
  if 1048576 < c.buf.length then
    if mine then c.fail "redis reply exceeds 1 MiB" else (c, [])
  else c.readReplies H mine

variable {H : RespHost} {c : RedisClient π} {mine : Bool} {rest : Bytes} {v : Reply} {e : RespError}

theorem readReplies_error (h : parseReply H c.buf = .error e) :
    c.readReplies H mine = c.fail e.message := by
  rw [readReplies]
  split <;> simp_all

theorem readReplies_none (h : parseReply H c.buf = .ok none) : c.readReplies H mine = (c, []) := by
  rw [readReplies]
  split <;> simp_all

/-- A late reply takes a promise off the queue that nothing settles. -/
theorem readReplies_late (h : parseReply H c.buf = .ok (some (v, rest))) :
    c.readReplies H false = ({ c with buf := rest, pending := c.pending.tail }, []) := by
  rw [readReplies]
  split <;> simp_all

theorem readReplies_some {p : π} {pending : List π} (h : parseReply H c.buf = .ok (some (v, rest)))
    (hp : c.pending = p :: pending) :
    c.readReplies H true =
      ((readReplies H true { c with buf := rest, pending }).1,
        (p, .reply v) :: (readReplies H true { c with buf := rest, pending }).2) := by
  rw [readReplies]
  split <;> simp_all

/-- The promises and the replies that settle them, in order. -/
def answered (H : RespHost) (pending : List π) (rs : List Resp) : List (π × Answer) :=
  List.zipWith (fun p r => (p, .reply (r.value H))) pending rs

/-- The lengths of the replies that so many bytes leave incomplete, and how many bytes of them
have arrived. -/
def unread : List Nat → Nat → List Nat × Nat
  | [], arrived => ([], arrived)
  | n :: ns, arrived => if n ≤ arrived then unread ns (arrived - n) else (n :: ns, arrived)

/-- At no chunk are the bytes behind the last complete reply more than the buffer may hold. -/
def Fits : List Nat → Nat → List Bytes → Prop
  | _, _, [] => True
  | lengths, held, chunk :: chunks =>
    held + chunk.length ≤ 1048576 ∧
      Fits (unread lengths (held + chunk.length)).1 (unread lengths (held + chunk.length)).2 chunks

/-- The lengths of replies on the wire. -/
def lengths (rs : List Resp) : List Nat := rs.map fun r => r.encode.length

/-- The replies of a stream on the wire. -/
def encoded (rs : List Resp) : Bytes := rs.flatMap Resp.encode

theorem answered_nil (pending : List π) : answered H pending [] = [] := List.zipWith_nil_right

/-- Without a complete reply the client waits. -/
theorem readReplies_waits (h : parseReply H c.buf = .ok none) :
    c.readReplies H true = ({ c with buf := c.buf, pending := c.pending.drop 0 },
      answered H c.pending []) := by
  rw [readReplies_none h, answered_nil]
  rfl

/-- **What has arrived of a stream of replies**: the complete ones settle the first promises, and
the buffer keeps the rest. -/
theorem readReplies_prefix (laws : RespLaws H) {rs : List Resp} (hrs : ∀ r ∈ rs, r.WellFormed)
    {tail : Bytes} (hbuf : c.buf ++ tail = encoded rs) (hpending : rs.length ≤ c.pending.length) :
    ∃ k left, k ≤ rs.length ∧
      c.readReplies H true = ({ c with buf := left, pending := c.pending.drop k },
        answered H c.pending (rs.take k)) ∧
      parseReply H left = .ok none ∧ c.buf = encoded (rs.take k) ++ left ∧
      left ++ tail = encoded (rs.drop k) ∧
      unread (lengths rs) c.buf.length = (lengths (rs.drop k), left.length) := by
  induction rs generalizing c with
  | nil =>
    have hempty : c.buf = [] := (List.append_eq_nil_iff.mp hbuf).1
    have hnone : parseReply H c.buf = .ok none := by
      rw [hempty]
      rfl
    exact ⟨0, c.buf, le_rfl, readReplies_waits hnone, hnone, rfl, hbuf, rfl⟩
  | cons r rs ih =>
    have hr := hrs r List.mem_cons_self
    by_cases hfront : r.encode <+: c.buf
    · obtain ⟨b, hb⟩ := hfront
      obtain ⟨p, pending, hp⟩ :=
        List.exists_cons_of_length_pos (Nat.lt_of_lt_of_le (Nat.succ_pos _) hpending)
      have hread : parseReply H c.buf = .ok (some (r.value H, b)) := by
        rw [← hb]
        exact hr.parseReply laws b
      have hrest : b ++ tail = encoded rs := by
        rw [← hb, List.append_assoc] at hbuf
        exact List.append_cancel_left hbuf
      have hlen : rs.length ≤ pending.length := by
        rw [hp, List.length_cons, List.length_cons] at hpending
        exact Nat.le_of_succ_le_succ hpending
      obtain ⟨k, left, hk, hsettled, hwait, hsplit, hleft, hunread⟩ :=
        ih (c := { c with buf := b, pending }) (fun r hr => hrs r (List.mem_cons_of_mem _ hr))
          hrest hlen
      refine ⟨k + 1, left, Nat.succ_le_succ hk, ?_, hwait, ?_, hleft, ?_⟩
      · rw [readReplies_some hread hp, hsettled, hp]
        rfl
      · dsimp only at hsplit
        rw [← hb, hsplit, List.take_succ_cons, ← List.append_assoc]
        rfl
      · dsimp only at hunread
        have hlength : c.buf.length = r.encode.length + b.length := by
          rw [← hb, List.length_append]
        rw [lengths, List.map_cons, unread, if_pos (by omega), hlength, Nat.add_sub_cancel_left]
        exact hunread
    · have hpart : c.buf <+: r.encode :=
        (List.prefix_or_prefix_of_prefix ⟨encoded rs, rfl⟩ ⟨tail, hbuf⟩).resolve_left hfront
      have hne : c.buf ≠ r.encode := by
        intro heq
        exact hfront (heq ▸ List.prefix_rfl)
      have hnone : parseReply H c.buf = .ok none :=
        readRaw_eq_none.mp ((hr.encodes laws).read_front hpart hne)
      have hlt : c.buf.length < r.encode.length :=
        lt_of_le_of_ne hpart.length_le fun heq => hne (hpart.eq_of_length heq)
      refine ⟨0, c.buf, Nat.zero_le _, readReplies_waits hnone, hnone, rfl, hbuf, ?_⟩
      rw [lengths, List.map_cons, unread, if_neg (by omega)]
      rfl

theorem onData_within {sock : Nat} {chunk : Bytes} (hsock : c.socket = some sock)
    (h : c.buf.length + chunk.length ≤ 1048576) :
    c.onData H sock chunk = readReplies H true { c with buf := c.buf ++ chunk } := by
  have hlen : ¬1048576 < (c.buf ++ chunk).length := by
    rw [List.length_append]
    omega
  rw [onData, if_neg hlen, decide_eq_true hsock]

/-- A reply of more than a megabyte fails the connection. -/
theorem onData_beyond {sock : Nat} {chunk : Bytes} (hsock : c.socket = some sock)
    (h : 1048576 < c.buf.length + chunk.length) :
    c.onData H sock chunk = c.fail "redis reply exceeds 1 MiB" := by
  have hlen : 1048576 < (c.buf ++ chunk).length := by
    rw [List.length_append]
    omega
  rw [onData, if_pos hlen, decide_eq_true hsock]
  rfl

theorem mem_answered {pending : List π} {rs : List Resp} {p : π} {a : Answer}
    (h : (p, a) ∈ answered H pending rs) :
    ∃ (i : Nat) (r : Resp), pending[i]? = some p ∧ rs[i]? = some r ∧ a = .reply (r.value H) := by
  obtain ⟨i, hi⟩ := List.mem_iff_getElem?.mp h
  obtain ⟨q, r, hq, hr, hpair⟩ := List.getElem?_zipWith_eq_some.mp hi
  cases hpair
  exact ⟨i, r, hq, hr, rfl⟩

end RedisClient

end CoolSdk
