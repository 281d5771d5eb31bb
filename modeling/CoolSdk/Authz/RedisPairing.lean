import CoolSdk.Authz.RedisClient
import CoolSdk.Authz.Replay
import CoolSdk.Core.Transition

/-!
# Replies and their commands

The client among its sockets and a server. A socket delivers, in chunks of any size, replies to
the commands written on it, in their order. The client matches replies by position alone, so the
queue must at all times be the commands written on the current socket and not yet answered. That
is so as long as it is closed only while none is outstanding, nothing is sent while it has no
socket, and an earlier socket delivers nothing that stays in the buffer or takes a promise off
the queue.
-/

namespace CoolSdk

namespace RedisClient

/-- A promise: that of a call, or that of a command of a socket's setup. -/
inductive Promise
  | call (id : Nat)
  | setup (sock k : Nat)
  deriving DecidableEq, Repr

structure Options where
  username : Option String := none
  password : Option String := none
  db : Option Int := none

/-- The commands a new connection sends first. -/
def Options.setup (o : Options) : List (List String) :=
  (match o.password with
    | none => []
    | some password =>
      match o.username with
      | none | some "" => [["AUTH", password]]
      | some username => [["AUTH", username, password]]) ++
  match o.db with
    | none | some 0 => []
    | some db => [["SELECT", toString db]]

/-- How far the promise of a socket's setup is. -/
inductive Setup
  | waiting
  | resolved
  | rejected (message : String)

/-- A socket: the commands written on it and what it has delivered. -/
structure Conn where
  written : List (Promise × List String) := []
  delivered : Bytes := []
  connected : Bool := false
  ready : Setup := .waiting

/-- A call that waits for a socket's setup. -/
structure Waiting where
  id : Nat
  sock : Nat
  args : List String

structure World where
  client : RedisClient Promise := {}
  /-- How many sockets were opened, and each of them by its number. -/
  opened : Nat := 0
  conns : Nat → Conn := fun _ => {}
  calls : Nat := 0
  waiting : List Waiting := []
  /-- What promises were resolved and rejected with; the first counts. -/
  settled : List (Promise × Answer) := []

namespace World

/-- A socket changes. -/
def setConn (w : World) (s : Nat) (f : Conn → Conn) : World :=
  { w with conns := Function.update w.conns s (f (w.conns s)) }

/-- A socket has delivered a chunk. -/
def deliver (w : World) (s : Nat) (chunk : Bytes) : World :=
  w.setConn s fun conn => { conn with delivered := conn.delivered ++ chunk }

/-- The client's handler ran. -/
def handled (w : World) (r : RedisClient Promise × List (Promise × Answer)) : World :=
  { w with client := r.1, settled := w.settled ++ r.2 }

/-- A promise is rejected. -/
def reject (w : World) (p : Promise) (message : String) : World :=
  { w with settled := w.settled ++ [(p, .failed message)] }

/-- A handler that acts only while its socket is the current one. -/
def failIfMine (w : World) (s : Nat) (message : String) : World :=
  if w.client.socket = some s then w.handled (w.client.fail message) else w

/-- `#send`: the promise is in the queue before there is a socket to write on. -/
def send (w : World) (p : Promise) (args : List String) : World :=
  let w := { w with client := { w.client with pending := w.client.pending ++ [p] } }
  match w.client.socket with
  | some s => w.setConn s fun conn => { conn with written := conn.written ++ [(p, args)] }
  | none => w.reject p "Cannot read properties of undefined (reading 'write')"

/-- `#connect`: the socket whose setup a call waits for, opened unless there is one. -/
def connect (w : World) : Nat × World :=
  match w.client.ready with
  | some s => (s, w)
  | none =>
    (w.opened, { w with
      client := { w.client with socket := some w.opened, ready := some w.opened }
      opened := w.opened + 1 })

end World

/-- What happens to the client. -/
inductive Event
  | call (args : List String)
  /-- A socket connects. -/
  | connected (sock : Nat)
  /-- All commands of a socket's setup were answered. -/
  | setUp (sock : Nat)
  | setupFailed (sock : Nat) (message : String)
  /-- A call whose socket is set up sends its command. -/
  | flush (call : Waiting)
  /-- A call whose socket was not set up is rejected. -/
  | refuse (call : Waiting) (message : String)
  | data (sock : Nat) (chunk : Bytes)
  | error (sock : Nat) (message : String)
  | closed (sock : Nat)
  | timeout (id : Nat)
  | close

namespace World

variable (H : RespHost) (o : Options)

/-- What the code does. -/
def next (w : World) : Event → World
  | .call args =>
    let (s, w) := w.connect
    { w with calls := w.calls + 1, waiting := w.waiting ++ [{ id := w.calls, sock := s, args }] }
  | .connected s =>
    (o.setup.zipIdx).foldl (fun w (args, k) => w.send (.setup s k) args)
      (w.setConn s fun conn => { conn with connected := true })
  | .setUp s => w.setConn s fun conn => { conn with ready := .resolved }
  | .setupFailed s message =>
    (w.setConn s fun conn => { conn with ready := .rejected message }).failIfMine s message
  | .flush call =>
    send { w with waiting := w.waiting.filter (·.id ≠ call.id) } (.call call.id) call.args
  | .refuse call message =>
    reject { w with waiting := w.waiting.filter (·.id ≠ call.id) } (.call call.id) message
  | .data s chunk =>
    (w.deliver s chunk).handled (w.client.onData H s chunk)
  | .error s message =>
    let w := if (w.conns s).connected then w
      else w.setConn s fun conn => { conn with ready := .rejected message }
    w.failIfMine s message
  | .closed s => w.failIfMine s "redis connection closed"
  | .timeout id => (w.handled (w.client.fail "redis timeout")).reject (.call id) "redis timeout"
  | .close => { w with client := { w.client with socket := none, ready := none } }

/-- The replies of a server to the first commands on a socket. -/
def replies (server : Nat → Nat → Resp) (s n : Nat) : List Resp := (List.range n).map (server s)

/-- When an event can happen: what a socket delivers are replies to commands written on it. -/
def Enabled (server : Nat → Nat → Resp) (w : World) : Event → Prop
  | .call _ | .close => True
  | .connected s => s < w.opened ∧ (w.conns s).connected = false
  | .setUp s => (w.conns s).connected = true ∧ (w.conns s).ready = .waiting ∧
      ∀ k < o.setup.length, ∃ v, (.setup s k, .reply v) ∈ w.settled ∧ ∀ m, v ≠ .error m
  | .setupFailed s message => (w.conns s).connected = true ∧ (w.conns s).ready = .waiting ∧
      ∃ k, (.setup s k, .failed message) ∈ w.settled ∨
        (.setup s k, .reply (.error message)) ∈ w.settled
  | .flush call => call ∈ w.waiting ∧ (w.conns call.sock).ready = .resolved
  | .refuse call message => call ∈ w.waiting ∧ (w.conns call.sock).ready = .rejected message
  | .data s chunk => s < w.opened ∧
      (w.conns s).delivered ++ chunk <+: encoded (replies server s (w.conns s).written.length)
  | .error s _ | .closed s => s < w.opened
  | .timeout id => id < w.calls ∧ ∀ a, (.call id, a) ∉ w.settled

end World

/-- The runs of a client and a server. -/
def redisRuns (H : RespHost) (o : Options) (server : Nat → Nat → Resp) :
    TransitionSystem World Event where
  init w := w = {}
  step w e w' := w.Enabled o server e ∧ w' = w.next H o e

/-! ## What pairs replies with commands -/

/-- A late chunk does no harm where it fails the client, or where it is one reply and nothing is
outstanding or held. -/
def Harmless (H : RespHost) (c : RedisClient Promise) (chunk : Bytes) : Prop :=
  (c.buf ++ chunk).length ≤ 1048576 ∧
    ((∃ e, parseReply H (c.buf ++ chunk) = .error e) ∨
      c.buf = [] ∧ c.pending = [] ∧ ∃ v, parseReply H chunk = .ok (some (v, [])))

/-- The client is closed only while nothing is outstanding, sends only while it has a socket, and
hears nothing harmful from an earlier one. -/
def Careful (H : RespHost) (o : Options) (w : World) : Event → Prop
  | .close => w.client.pending = []
  | .flush _ => w.client.socket ≠ none
  | .connected _ => o.setup = [] ∨ w.client.socket ≠ none
  | .data s chunk => w.client.socket = some s ∨ Harmless H w.client chunk
  | _ => True

namespace World

/-- The promises whose commands were written on a socket. -/
def promises (w : World) (s : Nat) : List Promise := (w.conns s).written.map Prod.fst

end World

namespace World

variable {H : RespHost} {o : Options} {server : Nat → Nat → Resp} {w : World}

/-! ### Sending -/

@[simp] theorem client_send (w : World) (p : Promise) (args : List String) :
    (w.send p args).client = { w.client with pending := w.client.pending ++ [p] } := by
  rw [send]
  cases w.client.socket <;> rfl

@[simp] theorem opened_send (w : World) (p : Promise) (args : List String) :
    (w.send p args).opened = w.opened := by
  rw [send]
  cases w.client.socket <;> rfl

@[simp] theorem calls_send (w : World) (p : Promise) (args : List String) :
    (w.send p args).calls = w.calls := by
  rw [send]
  cases w.client.socket <;> rfl

@[simp] theorem waiting_send (w : World) (p : Promise) (args : List String) :
    (w.send p args).waiting = w.waiting := by
  rw [send]
  cases w.client.socket <;> rfl

/-- A command is written on the current socket. -/
theorem conns_send {s : Nat} (hs : w.client.socket = some s) (p : Promise) (args : List String) :
    (w.send p args).conns = Function.update w.conns s
      { w.conns s with written := (w.conns s).written ++ [(p, args)] } := by
  simp only [send, hs]
  rfl

/-- Without a socket nothing is written. -/
theorem conns_send_none (hs : w.client.socket = none) (p : Promise) (args : List String) :
    (w.send p args).conns = w.conns := by
  simp only [send, hs]
  rfl

theorem promises_send (w : World) (p : Promise) (args : List String) (s : Nat) :
    (w.send p args).promises s =
      w.promises s ++ if w.client.socket = some s then [p] else [] := by
  rw [promises, promises]
  cases hsock : w.client.socket with
  | none => rw [conns_send_none hsock, if_neg (Option.some_ne_none s).symm, List.append_nil]
  | some t =>
    rw [conns_send hsock]
    by_cases hst : t = s
    · subst hst
      rw [Function.update_self, if_pos rfl, List.map_append]
      rfl
    · rw [Function.update_of_ne (Ne.symm hst), if_neg (fun h => hst (Option.some.inj h)),
        List.append_nil]

@[simp] theorem delivered_send (w : World) (p : Promise) (args : List String) (s : Nat) :
    ((w.send p args).conns s).delivered = (w.conns s).delivered := by
  cases hsock : w.client.socket with
  | none => rw [conns_send_none hsock]
  | some t =>
    rw [conns_send hsock]
    by_cases hst : s = t
    · rw [hst, Function.update_self]
    · rw [Function.update_of_ne hst]

@[simp] theorem connected_send (w : World) (p : Promise) (args : List String) (s : Nat) :
    ((w.send p args).conns s).connected = (w.conns s).connected := by
  cases hsock : w.client.socket with
  | none => rw [conns_send_none hsock]
  | some t =>
    rw [conns_send hsock]
    by_cases hst : s = t
    · rw [hst, Function.update_self]
    · rw [Function.update_of_ne hst]

/-- Sending answers nothing. -/
theorem reply_mem_send {p q : Promise} {args : List String} {v : Reply}
    (h : (q, .reply v) ∈ (w.send p args).settled) : (q, .reply v) ∈ w.settled := by
  rw [send] at h
  cases hsock : w.client.socket with
  | some s =>
    simp only [hsock] at h
    exact h
  | none =>
    simp only [hsock] at h
    rcases List.mem_append.mp h with h | h
    · exact h
    · rw [List.mem_singleton] at h
      cases h

/-! ### Every command is written once -/

/-- Commands are written once, those of calls that no longer wait and of setups that began. -/
structure Once (w : World) : Prop where
  unique {s n s' n' : Nat} {p : Promise} :
    (w.promises s)[n]? = some p → (w.promises s')[n']? = some p → s' = s ∧ n' = n
  ids : (w.waiting.map Waiting.id).Nodup
  waiting : ∀ call ∈ w.waiting, call.id < w.calls
  calls {s id : Nat} : .call id ∈ w.promises s → id < w.calls ∧ id ∉ w.waiting.map Waiting.id
  setups {s s' k : Nat} : .setup s k ∈ w.promises s' → (w.conns s).connected = true

/-- A promise may send once. -/
def MaySend (w : World) (p : Promise) : Prop :=
  (∀ s, p ∉ w.promises s) ∧
    match p with
    | .call id => id < w.calls ∧ id ∉ w.waiting.map Waiting.id
    | .setup s _ => (w.conns s).connected = true

/-- What is written after a send was written before, or is what was sent. -/
theorem getElem?_promises_send {p q : Promise} {args : List String} {s n : Nat}
    (h : ((w.send p args).promises s)[n]? = some q) :
    (w.promises s)[n]? = some q ∨
      q = p ∧ w.client.socket = some s ∧ n = (w.promises s).length := by
  rw [promises_send, List.getElem?_append] at h
  split_ifs at h with hlt hsock
  · exact Or.inl h
  · obtain ⟨hn, hq⟩ := List.getElem?_eq_some_iff.mp h
    rw [List.length_singleton] at hn
    rw [List.getElem_singleton] at hq
    exact Or.inr ⟨hq.symm, hsock, by omega⟩
  · cases h

theorem mem_promises_send {p q : Promise} {args : List String} {s : Nat}
    (h : q ∈ (w.send p args).promises s) : q ∈ w.promises s ∨ q = p := by
  obtain ⟨n, hn⟩ := List.mem_iff_getElem?.mp h
  rcases getElem?_promises_send hn with hn | ⟨hq, _⟩
  · exact Or.inl (List.mem_of_getElem? hn)
  · exact Or.inr hq

theorem Once.send {p : Promise} {args : List String} (h : w.Once) (hp : w.MaySend p) :
    (w.send p args).Once where
  unique := by
    intro s n s' n' q hq hq'
    rcases getElem?_promises_send hq with hold | ⟨hqp, hs, hn⟩
    · rcases getElem?_promises_send hq' with hold' | ⟨hqp, _⟩
      · exact h.unique hold hold'
      · exact (hp.1 s (hqp ▸ List.mem_of_getElem? hold)).elim
    · rcases getElem?_promises_send hq' with hold' | ⟨_, hs', hn'⟩
      · exact (hp.1 s' (hqp ▸ List.mem_of_getElem? hold')).elim
      · obtain rfl := Option.some.inj (hs.symm.trans hs')
        exact ⟨rfl, hn'.trans hn.symm⟩
  ids := by
    rw [waiting_send]
    exact h.ids
  waiting := by
    rw [waiting_send, calls_send]
    exact h.waiting
  calls := by
    intro s id hid
    rw [waiting_send, calls_send]
    rcases mem_promises_send hid with hid | rfl
    · exact h.calls hid
    · exact hp.2
  setups := by
    intro s s' k hk
    rw [connected_send]
    rcases mem_promises_send hk with hk | rfl
    · exact h.setups hk
    · exact hp.2

theorem conns_setConn (w : World) (s : Nat) (f : Conn → Conn) :
    (w.setConn s f).conns s = f (w.conns s) := Function.update_self s _ _

theorem conns_setConn_ne (w : World) {s t : Nat} (f : Conn → Conn) (h : t ≠ s) :
    (w.setConn s f).conns t = w.conns t := Function.update_of_ne h _ _

/-- A change of a socket that leaves what is written on it. -/
theorem promises_setConn (w : World) (s : Nat) (f : Conn → Conn)
    (hf : ∀ c, (f c).written = c.written) (t : Nat) :
    (w.setConn s f).promises t = w.promises t := by
  rw [promises, promises]
  by_cases hts : t = s
  · rw [hts, conns_setConn, hf]
  · rw [conns_setConn_ne w f hts]

theorem Once.setConn (h : w.Once) (s : Nat) (f : Conn → Conn)
    (hf : ∀ c, (f c).written = c.written)
    (hconnected : ∀ c, c.connected = true → (f c).connected = true) : (w.setConn s f).Once where
  unique := by
    intro t n t' n' p hp hp'
    rw [promises_setConn w s f hf] at hp hp'
    exact h.unique hp hp'
  ids := h.ids
  waiting := h.waiting
  calls := by
    intro t id hid
    rw [promises_setConn w s f hf] at hid
    exact h.calls hid
  setups := by
    intro t t' k hk
    rw [promises_setConn w s f hf] at hk
    have hsetup := h.setups hk
    by_cases hts : t = s
    · rw [hts, conns_setConn]
      exact hconnected _ (hts ▸ hsetup)
    · rw [conns_setConn_ne w f hts]
      exact hsetup

/-- What the client and the settled promises are does not matter. -/
theorem Once.handled (h : w.Once) (r : RedisClient Promise × List (Promise × Answer)) :
    (w.handled r).Once :=
  ⟨h.unique, h.ids, h.waiting, h.calls, h.setups⟩

theorem Once.failIfMine (h : w.Once) (s : Nat) (message : String) :
    (w.failIfMine s message).Once := by
  rw [World.failIfMine]
  split_ifs
  · exact h.handled _
  · exact h

/-- A new call waits. -/
theorem Once.enqueue (h : w.Once) (sock : Nat) (args : List String) :
    ({ w with
      calls := w.calls + 1
      waiting := w.waiting ++ [{ id := w.calls, sock, args }] } : World).Once := by
  have hids : (w.waiting ++ [(⟨w.calls, sock, args⟩ : Waiting)]).map Waiting.id =
      w.waiting.map Waiting.id ++ [w.calls] := List.map_append
  have hnew : w.calls ∉ w.waiting.map Waiting.id := by
    intro hmem
    obtain ⟨call, hcall, hid⟩ := List.mem_map.mp hmem
    exact absurd hid (h.waiting call hcall).ne
  constructor
  · exact h.unique
  · rw [hids]
    exact h.ids.append (List.nodup_singleton _) (List.disjoint_singleton.mpr hnew)
  · intro call hcall
    rcases List.mem_append.mp hcall with hcall | hcall
    · exact Nat.lt_succ_of_lt (h.waiting call hcall)
    · rw [List.mem_singleton.mp hcall]
      exact Nat.lt_succ_self _
  · intro s id hid
    obtain ⟨hlt, hnot⟩ := h.calls hid
    rw [hids, List.mem_append, not_or, List.mem_singleton]
    exact ⟨Nat.lt_succ_of_lt hlt, hnot, hlt.ne⟩
  · exact h.setups

/-- A call that waits was not sent yet. -/
theorem Once.dequeue {call : Waiting} (h : w.Once) (hcall : call ∈ w.waiting) :
    ({ w with waiting := w.waiting.filter (·.id ≠ call.id) } : World).Once ∧
      ({ w with waiting := w.waiting.filter (·.id ≠ call.id) } : World).MaySend (.call call.id) := by
  have hid : call.id ∈ w.waiting.map Waiting.id := List.mem_map_of_mem hcall
  have hfilter : (w.waiting.filter (·.id ≠ call.id)).map Waiting.id =
      (w.waiting.map Waiting.id).filter (· ≠ call.id) := by
    rw [List.filter_map]
    rfl
  have hsub : ∀ id, id ∉ w.waiting.map Waiting.id →
      id ∉ (w.waiting.filter (·.id ≠ call.id)).map Waiting.id := by
    intro id hnot hmem
    rw [hfilter] at hmem
    exact hnot (List.mem_filter.mp hmem).1
  constructor
  · constructor
    · exact h.unique
    · show ((w.waiting.filter (·.id ≠ call.id)).map Waiting.id).Nodup
      rw [hfilter]
      exact h.ids.filter _
    · intro c hc
      exact h.waiting c (List.mem_filter.mp hc).1
    · intro s id hmem
      exact ⟨(h.calls hmem).1, hsub id (h.calls hmem).2⟩
    · exact h.setups
  · refine ⟨?_, h.waiting call hcall, ?_⟩
    · intro s hs
      exact (h.calls hs).2 hid
    · show call.id ∉ (w.waiting.filter (·.id ≠ call.id)).map Waiting.id
      rw [hfilter, List.mem_filter]
      simp

/-- The commands of a setup are sent one after the other. -/
theorem Once.sendSetup {s first : Nat} {commands : List (List String)} (h : w.Once)
    (hs : (w.conns s).connected = true)
    (hnew : ∀ k t, first ≤ k → .setup s k ∉ w.promises t) :
    ((commands.zipIdx first).foldl (fun w (args, k) => w.send (.setup s k) args) w).Once := by
  induction commands generalizing w first with
  | nil => exact h
  | cons args commands ih =>
    have hsend : w.MaySend (.setup s first) := ⟨fun t => hnew first t le_rfl, hs⟩
    apply ih (h.send hsend)
    · rw [connected_send]
      exact hs
    · intro k t hk hmem
      rcases mem_promises_send hmem with hmem | heq
      · exact hnew k t (Nat.le_of_succ_le hk) hmem
      · cases heq
        omega

theorem Once.next {e : Event} (h : w.Once) (he : w.Enabled o server e) : (w.next H o e).Once := by
  cases e with
  | call args =>
    have hconnect : w.connect.2.Once := by
      rw [connect]
      cases w.client.ready with
      | some s => exact h
      | none => exact ⟨h.unique, h.ids, h.waiting, h.calls, h.setups⟩
    exact hconnect.enqueue w.connect.1 args
  | connected s =>
    have hset := h.setConn s (fun conn => { conn with connected := true }) (fun _ => rfl)
      fun _ _ => rfl
    apply hset.sendSetup
    · rw [conns_setConn]
    · intro k t _ hmem
      have hsame : (w.setConn s fun conn => { conn with connected := true }).promises t =
          w.promises t := by
        apply promises_setConn
        intro _
        rfl
      rw [hsame] at hmem
      exact absurd (h.setups hmem) (by rw [he.2]; decide)
  | setUp s =>
    exact h.setConn s (fun conn => { conn with ready := .resolved }) (fun _ => rfl) fun _ hc => hc
  | setupFailed s message =>
    have hset := h.setConn s (fun conn => { conn with ready := .rejected message })
      (fun _ => rfl) fun _ hc => hc
    exact hset.failIfMine s message
  | flush call =>
    obtain ⟨hwaiting, hsend⟩ := h.dequeue he.1
    exact hwaiting.send hsend
  | refuse call message =>
    have hwaiting := (h.dequeue he.1).1
    exact ⟨hwaiting.unique, hwaiting.ids, hwaiting.waiting, hwaiting.calls, hwaiting.setups⟩
  | data s chunk =>
    have hset : (w.deliver s chunk).Once := h.setConn s _ (fun _ => rfl) fun _ hc => hc
    exact hset.handled _
  | error s message =>
    have hset := h.setConn s (fun conn => { conn with ready := .rejected message })
      (fun _ => rfl) fun _ hc => hc
    rw [World.next]
    split_ifs
    · exact h.failIfMine s message
    · exact hset.failIfMine s message
  | closed s => exact h.failIfMine s _
  | timeout id => exact ⟨h.unique, h.ids, h.waiting, h.calls, h.setups⟩
  | close => exact ⟨h.unique, h.ids, h.waiting, h.calls, h.setups⟩

/-! ### The queue is what the current socket has not answered -/

/-- The queue and the buffer belong to the current socket: the commands written on it that were
not answered, and the front of a reply that has arrived. -/
def Aligned (server : Nat → Nat → Resp) (w : World) : Prop :=
  match w.client.socket with
  | none => w.client.pending = [] ∧ w.client.buf = []
  | some s => s < w.opened ∧ ∃ answered ≤ (w.promises s).length,
      w.client.pending = (w.promises s).drop answered ∧
        (w.conns s).delivered = encoded (replies server s answered) ++ w.client.buf

/-- Every reply so far was that of its promise's command, and the next ones will be. -/
structure Good (H : RespHost) (server : Nat → Nat → Resp) (w : World) : Prop where
  ready : w.client.ready = w.client.socket
  fresh : ∀ s, w.opened ≤ s → w.conns s = {}
  honest : ∀ s, (w.conns s).delivered <+: encoded (replies server s (w.promises s).length)
  aligned : w.Aligned server
  matched : ∀ p v, (p, .reply v) ∈ w.settled →
    ∃ s n, (w.promises s)[n]? = some p ∧ v = (server s n).value H

theorem replies_add (server : Nat → Nat → Resp) (s n k : Nat) :
    replies server s (n + k) =
      replies server s n ++ (List.range k).map fun i => server s (n + i) := by
  rw [replies, List.range_add, List.map_append, List.map_map]
  rfl

theorem encoded_append (rs rs' : List Resp) : encoded (rs ++ rs') = encoded rs ++ encoded rs' :=
  List.flatMap_append

/-- More commands are answered with more replies. -/
theorem encoded_replies_isPrefix {n m : Nat} (h : n ≤ m) (s : Nat) :
    encoded (replies server s n) <+: encoded (replies server s m) := by
  obtain ⟨k, rfl⟩ := Nat.exists_eq_add_of_le h
  rw [replies_add, encoded_append]
  exact List.prefix_append _ _

/-- A client that failed is one that never sent anything. -/
theorem Good.fail (h : w.Good H server) (message : String) :
    (w.handled (w.client.fail message)).Good H server where
  ready := rfl
  fresh := h.fresh
  honest := h.honest
  aligned := ⟨rfl, rfl⟩
  matched := by
    intro p v hmem
    rcases List.mem_append.mp hmem with hmem | hmem
    · exact h.matched p v hmem
    · obtain ⟨q, _, hq⟩ := List.mem_map.mp hmem
      cases hq

theorem Good.failIfMine (h : w.Good H server) (s : Nat) (message : String) :
    (w.failIfMine s message).Good H server := by
  rw [World.failIfMine]
  split_ifs
  · exact h.fail message
  · exact h

theorem Good.reject (h : w.Good H server) (p : Promise) (message : String) :
    (w.reject p message).Good H server where
  ready := h.ready
  fresh := h.fresh
  honest := h.honest
  aligned := h.aligned
  matched := by
    intro q v hmem
    rcases List.mem_append.mp hmem with hmem | hmem
    · exact h.matched q v hmem
    · rw [List.mem_singleton] at hmem
      cases hmem

/-- Progress of a socket's setup changes nothing that was written or delivered. -/
theorem Good.setConn (h : w.Good H server) {s : Nat} (hs : s < w.opened) (f : Conn → Conn)
    (hf : ∀ c, (f c).written = c.written) (hdelivered : ∀ c, (f c).delivered = c.delivered) :
    (w.setConn s f).Good H server := by
  have hconn : ∀ t, ((w.setConn s f).conns t).delivered = (w.conns t).delivered := by
    intro t
    by_cases hts : t = s
    · rw [hts, conns_setConn, hdelivered]
    · rw [conns_setConn_ne w f hts]
  refine ⟨h.ready, ?_, ?_, ?_, ?_⟩
  · intro t ht
    have hts : t ≠ s := (Nat.lt_of_lt_of_le hs ht).ne'
    rw [conns_setConn_ne w f hts]
    exact h.fresh t ht
  · intro t
    rw [hconn, promises_setConn w s f hf]
    exact h.honest t
  · have haligned := h.aligned
    simp only [Aligned, promises_setConn w s f hf, hconn] at haligned ⊢
    exact haligned
  · intro p v hmem
    obtain ⟨t, n, hp, hv⟩ := h.matched p v hmem
    exact ⟨t, n, (promises_setConn w s f hf t).symm ▸ hp, hv⟩

theorem getElem?_promises_of {p q : Promise} {args : List String} {s n : Nat}
    (h : (w.promises s)[n]? = some q) : ((w.send p args).promises s)[n]? = some q := by
  rw [promises_send, List.getElem?_append_left (List.getElem?_eq_some_iff.mp h).1]
  exact h

/-- A command sent on the current socket waits behind those not answered. -/
theorem Good.send (h : w.Good H server) (hsock : w.client.socket ≠ none) (p : Promise)
    (args : List String) : (w.send p args).Good H server := by
  obtain ⟨s, hs⟩ := Option.ne_none_iff_exists'.mp hsock
  have haligned := h.aligned
  simp only [Aligned, hs] at haligned
  obtain ⟨hopened, answered, hle, hpending, hdelivered⟩ := haligned
  refine ⟨?_, ?_, ?_, ?_, ?_⟩
  · rw [client_send]
    exact h.ready
  · intro t ht
    rw [opened_send] at ht
    rw [conns_send hs, Function.update_of_ne (Nat.lt_of_lt_of_le hopened ht).ne']
    exact h.fresh t ht
  · intro t
    rw [delivered_send, promises_send, List.length_append]
    exact (h.honest t).trans (encoded_replies_isPrefix (Nat.le_add_right _ _) t)
  · simp only [Aligned, client_send, hs, opened_send, delivered_send, promises_send, if_true,
      List.length_append]
    refine ⟨hopened, answered, Nat.le_add_right_of_le hle, ?_, hdelivered⟩
    rw [hpending, List.drop_append_of_le_length hle]
  · intro q v hmem
    obtain ⟨t, n, hq, hv⟩ := h.matched q v (reply_mem_send hmem)
    exact ⟨t, n, getElem?_promises_of hq, hv⟩

@[simp] theorem promises_deliver (w : World) (s : Nat) (chunk : Bytes) (t : Nat) :
    (w.deliver s chunk).promises t = w.promises t := by
  apply promises_setConn
  intro _
  rfl

theorem delivered_deliver (w : World) (s : Nat) (chunk : Bytes) :
    ((w.deliver s chunk).conns s).delivered = (w.conns s).delivered ++ chunk := by
  rw [deliver, conns_setConn]

theorem conns_deliver_ne (w : World) {s t : Nat} (chunk : Bytes) (h : t ≠ s) :
    (w.deliver s chunk).conns t = w.conns t := conns_setConn_ne w _ h

theorem Good.fresh_deliver (h : w.Good H server) {s : Nat} (hs : s < w.opened) (chunk : Bytes) :
    ∀ t, w.opened ≤ t → (w.deliver s chunk).conns t = {} := by
  intro t ht
  rw [conns_deliver_ne w chunk (Nat.lt_of_lt_of_le hs ht).ne']
  exact h.fresh t ht

theorem Good.honest_deliver (h : w.Good H server) {s : Nat} {chunk : Bytes}
    (hhonest : (w.conns s).delivered ++ chunk <+:
      encoded (replies server s (w.promises s).length)) (t : Nat) :
    ((w.deliver s chunk).conns t).delivered <+:
      encoded (replies server t ((w.deliver s chunk).promises t).length) := by
  rw [promises_deliver]
  by_cases hts : t = s
  · rw [hts, delivered_deliver]
    exact hhonest
  · rw [conns_deliver_ne w chunk hts]
    exact h.honest t

/-- What an earlier socket delivers, apart from what the client makes of it. -/
theorem Good.deliver (h : w.Good H server) {s : Nat} {chunk : Bytes} (hs : s < w.opened)
    (hsock : w.client.socket ≠ some s)
    (hhonest : (w.conns s).delivered ++ chunk <+:
      encoded (replies server s (w.promises s).length)) : (w.deliver s chunk).Good H server := by
  refine ⟨h.ready, h.fresh_deliver hs chunk, h.honest_deliver hhonest, ?_, ?_⟩
  · have haligned := h.aligned
    unfold Aligned at haligned ⊢
    show match w.client.socket with
      | none => _
      | some _ => _
    cases hcurrent : w.client.socket with
    | none =>
      rw [hcurrent] at haligned
      exact haligned
    | some t =>
      have hts : t ≠ s := fun heq => hsock (heq ▸ hcurrent)
      rw [hcurrent] at haligned
      simp only [conns_deliver_ne w chunk hts, promises_deliver]
      exact haligned
  · intro p v hmem
    obtain ⟨t, n, hp, hv⟩ := h.matched p v hmem
    exact ⟨t, n, (promises_deliver w s chunk t).symm ▸ hp, hv⟩

/-- Whatever a socket delivers, a client that fails on it is as good as new. -/
theorem Good.deliver_fail (h : w.Good H server) {s : Nat} {chunk : Bytes} (hs : s < w.opened)
    (hhonest : (w.conns s).delivered ++ chunk <+:
      encoded (replies server s (w.promises s).length)) (message : String) :
    ((w.deliver s chunk).handled (w.client.fail message)).Good H server :=
  (h.fail message).deliver hs (Option.some_ne_none s).symm hhonest

/-- **What the current socket delivers** settles the promises of the commands it answers. -/
theorem Good.data (laws : RespLaws H) (hserver : ∀ s n, (server s n).WellFormed)
    (h : w.Good H server) {s : Nat} {chunk : Bytes} (hsock : w.client.socket = some s)
    (hhonest : (w.conns s).delivered ++ chunk <+:
      encoded (replies server s (w.promises s).length)) :
    (w.next H o (.data s chunk)).Good H server := by
  have haligned := h.aligned
  simp only [Aligned, hsock] at haligned
  obtain ⟨hopened, answered, hle, hpending, hdelivered⟩ := haligned
  rw [World.next]
  by_cases hlen : w.client.buf.length + chunk.length ≤ 1048576
  · obtain ⟨outstanding, hwritten⟩ := Nat.exists_eq_add_of_le hle
    -- the replies the socket has yet to deliver, one for each promise of the queue
    generalize hrs : (List.range outstanding).map (fun i => server s (answered + i)) = rs
    have hwell : ∀ r ∈ rs, r.WellFormed := by
      intro r hr
      rw [← hrs] at hr
      obtain ⟨i, _, rfl⟩ := List.mem_map.mp hr
      exact hserver _ _
    have hcount : rs.length = outstanding := by
      rw [← hrs, List.length_map, List.length_range]
    have hqueue : w.client.pending.length = outstanding := by
      rw [hpending, List.length_drop, hwritten, Nat.add_sub_cancel_left]
    have htake : ∀ k ≤ outstanding, rs.take k =
        (List.range k).map fun i => server s (answered + i) := by
      intro k hk
      rw [← hrs, ← List.map_take, List.take_range, Nat.min_eq_left hk]
    have hprefix := hhonest
    obtain ⟨tail, htail⟩ := hprefix
    have hstream : w.client.buf ++ chunk ++ tail = encoded rs := by
      rw [hwritten, replies_add, encoded_append, hrs, hdelivered] at htail
      simp only [List.append_assoc] at htail ⊢
      exact List.append_cancel_left htail
    obtain ⟨k, left, hk, hsettled, -, hsplit, -, -⟩ := readReplies_prefix
      (c := { w.client with buf := w.client.buf ++ chunk }) laws hwell hstream
      (hcount.trans hqueue.symm).le
    rw [hcount] at hk
    rw [onData_within hsock hlen, hsettled]
    refine ⟨h.ready, h.fresh_deliver hopened chunk, h.honest_deliver hhonest, ?_, ?_⟩
    · have hmatch : (w.deliver s chunk).promises s = w.promises s := promises_deliver w s chunk s
      show match w.client.socket with
        | none => _
        | some _ => _
      rw [hsock]
      refine ⟨hopened, answered + k, ?_, ?_, ?_⟩
      · show answered + k ≤ ((w.deliver s chunk).promises s).length
        rw [hmatch]
        omega
      · show w.client.pending.drop k = ((w.deliver s chunk).promises s).drop (answered + k)
        rw [hmatch, hpending, List.drop_drop]
      · show ((w.deliver s chunk).conns s).delivered = _ ++ left
        rw [delivered_deliver, hdelivered, replies_add, encoded_append, ← htake k hk,
          List.append_assoc, List.append_assoc]
        exact congrArg _ hsplit
    · intro p v hmem
      rcases List.mem_append.mp hmem with hmem | hmem
      · obtain ⟨t, n, hp, hv⟩ := h.matched p v hmem
        exact ⟨t, n, (promises_deliver w s chunk t).symm ▸ hp, hv⟩
      · obtain ⟨i, r, hp, hr, hv⟩ := mem_answered hmem
        rw [htake k hk, List.getElem?_map] at hr
        obtain ⟨j, hj, rfl⟩ := Option.map_eq_some_iff.mp hr
        obtain ⟨_, rfl⟩ := List.getElem?_eq_some_iff.mp hj
        cases hv
        refine ⟨s, answered + i, ?_, ?_⟩
        · show ((w.deliver s chunk).promises s)[answered + i]? = some p
          rw [promises_deliver, ← List.getElem?_drop, ← hpending]
          exact hp
        · rw [List.getElem_range]
  · rw [onData_beyond hsock (not_le.mp hlen)]
    exact h.deliver_fail hopened hhonest _

/-- A late chunk that does no harm changes nothing, or fails the client. -/
theorem Good.late (h : w.Good H server) {s : Nat} {chunk : Bytes} (hs : s < w.opened)
    (hsock : w.client.socket ≠ some s) (hharmless : Harmless H w.client chunk)
    (hhonest : (w.conns s).delivered ++ chunk <+:
      encoded (replies server s (w.promises s).length)) :
    (w.next H o (.data s chunk)).Good H server := by
  obtain ⟨hlen, hread⟩ := hharmless
  have hdata : w.client.onData H s chunk =
      readReplies H false { w.client with buf := w.client.buf ++ chunk } := by
    rw [onData, if_neg (not_lt.mpr hlen), decide_eq_false hsock]
  rw [World.next, hdata]
  rcases hread with ⟨e, he⟩ | ⟨hbuf, hpending, v, hv⟩
  · rw [readReplies_error (c := { w.client with buf := w.client.buf ++ chunk }) he]
    exact h.deliver_fail hs hhonest _
  · have hread : parseReply H (w.client.buf ++ chunk) = .ok (some (v, [])) := by
      rw [hbuf]
      exact hv
    have hclient : ({ w.client with buf := [], pending := w.client.pending.tail } :
        RedisClient Promise) = w.client := by
      rw [hpending, List.tail_nil]
      nth_rewrite 1 [← hbuf]
      rw [← hpending]
    rw [readReplies_late (c := { w.client with buf := w.client.buf ++ chunk }) hread]
    have hsame : (w.deliver s chunk).handled (w.client, []) = w.deliver s chunk := by
      rw [World.handled, List.append_nil]
      rfl
    dsimp only
    rw [hclient, hsame]
    exact h.deliver hs hsock hhonest

theorem Good.connect (h : w.Good H server) : w.connect.2.Good H server := by
  rw [World.connect]
  cases hready : w.client.ready with
  | some s => exact h
  | none =>
    have hsock : w.client.socket = none := h.ready.symm.trans hready
    have haligned := h.aligned
    simp only [Aligned, hsock] at haligned
    have hnew := h.fresh w.opened le_rfl
    refine ⟨rfl, ?_, h.honest, ⟨Nat.lt_succ_self _, 0, Nat.zero_le _, ?_, ?_⟩, h.matched⟩
    · intro s hs
      exact h.fresh s (Nat.le_of_succ_le hs)
    · show w.client.pending = ((w.conns w.opened).written.map Prod.fst).drop 0
      rw [hnew, haligned.1]
      rfl
    · show (w.conns w.opened).delivered = [] ++ w.client.buf
      rw [hnew, haligned.2]
      rfl

/-- Where no promise is outstanding, every reply was read to its end. -/
theorem Good.buf_eq_nil (h : w.Good H server) (hpending : w.client.pending = []) :
    w.client.buf = [] := by
  have haligned := h.aligned
  cases hsock : w.client.socket with
  | none =>
    simp only [Aligned, hsock] at haligned
    exact haligned.2
  | some s =>
    simp only [Aligned, hsock] at haligned
    obtain ⟨_, answered, hle, hqueue, hdelivered⟩ := haligned
    rw [hpending] at hqueue
    have hall : answered = (w.promises s).length :=
      le_antisymm hle (List.drop_eq_nil_iff.mp hqueue.symm)
    have hlength := (h.honest s).length_le
    rw [hdelivered, hall, List.length_append] at hlength
    exact List.length_eq_zero_iff.mp (by omega)

theorem Good.sendSetup {s first : Nat} {commands : List (List String)} (h : w.Good H server)
    (hsock : w.client.socket ≠ none) :
    ((commands.zipIdx first).foldl (fun w (args, k) => w.send (.setup s k) args) w).Good
      H server := by
  induction commands generalizing w first with
  | nil => exact h
  | cons args commands ih =>
    apply ih (h.send hsock _ args)
    rw [client_send]
    exact hsock

theorem Good.next (laws : RespLaws H) (hserver : ∀ s n, (server s n).WellFormed)
    (h : w.Good H server) {e : Event} (he : w.Enabled o server e) (hcareful : Careful H o w e) :
    (w.next H o e).Good H server := by
  have hopened : ∀ s, (w.conns s).connected = true → s < w.opened := by
    intro s hs
    by_contra hge
    rw [h.fresh s (not_lt.mp hge)] at hs
    cases hs
  cases e with
  | call args =>
    have hconnect := h.connect
    exact ⟨hconnect.ready, hconnect.fresh, hconnect.honest, hconnect.aligned, hconnect.matched⟩
  | connected s =>
    have hset := h.setConn he.1 (fun conn => { conn with connected := true }) (fun _ => rfl)
      fun _ => rfl
    rcases hcareful with hnone | hsock
    · rw [World.next, hnone]
      exact hset
    · exact hset.sendSetup hsock
  | setUp s =>
    exact h.setConn (hopened s he.1) (fun conn => { conn with ready := .resolved })
      (fun _ => rfl) fun _ => rfl
  | setupFailed s message =>
    have hset := h.setConn (hopened s he.1)
      (fun conn => { conn with ready := .rejected message }) (fun _ => rfl) fun _ => rfl
    exact hset.failIfMine s message
  | flush call =>
    have hwaiting : ({ w with waiting := w.waiting.filter (·.id ≠ call.id) } : World).Good
        H server := ⟨h.ready, h.fresh, h.honest, h.aligned, h.matched⟩
    exact hwaiting.send hcareful _ _
  | refuse call message =>
    have hwaiting : ({ w with waiting := w.waiting.filter (·.id ≠ call.id) } : World).Good
        H server := ⟨h.ready, h.fresh, h.honest, h.aligned, h.matched⟩
    exact hwaiting.reject _ message
  | data s chunk =>
    have hhonest : (w.conns s).delivered ++ chunk <+:
        encoded (replies server s (w.promises s).length) := by
      rw [promises, List.length_map]
      exact he.2
    by_cases hsock : w.client.socket = some s
    · exact h.data laws hserver hsock hhonest
    · exact h.late he.1 hsock (hcareful.resolve_left hsock) hhonest
  | error s message =>
    rw [World.next]
    split_ifs
    · exact h.failIfMine s message
    · have hset := h.setConn he (fun conn => { conn with ready := .rejected message })
        (fun _ => rfl) fun _ => rfl
      exact hset.failIfMine s message
  | closed s => exact h.failIfMine s _
  | timeout id => exact (h.fail _).reject _ _
  | close =>
    exact ⟨rfl, h.fresh, h.honest, ⟨hcareful, h.buf_eq_nil hcareful⟩, h.matched⟩

end World

variable {H : RespHost} {o : Options} {server : Nat → Nat → Resp} {w : World}

theorem RunWhere.next {ok : World → Event → Prop} {e : Event}
    (h : (redisRuns H o server).RunWhere ok w) (hok : ok w e) (he : w.Enabled o server e) :
    (redisRuns H o server).RunWhere ok (w.next H o e) := .snoc h hok ⟨he, rfl⟩

end RedisClient

end CoolSdk
