import CoolSdk.Runtime.Host

/-!
# Replay resistance

A nonce is consumed at most once. The in-process store keeps a map and runs each consume
to completion. The file store makes one file per nonce, named by a digest and created
exclusively; every failure other than an existing file is `unavailable`.
-/

namespace CoolSdk

/-- What a store answers. -/
inductive ConsumeResult
  /-- First use. -/
  | consumed
  /-- Already used. -/
  | replayed
  /-- The store could not answer. -/
  | unavailable
  deriving DecidableEq, Repr

/-- The text a nonce is remembered by in its scope. -/
def nonceText (scope nonce : String) : String := scope ++ "\x00" ++ nonce

/-- The in-process store: the request id each nonce was used for. -/
structure MemoryNonceStore where
  used : OrderedMap String String

/-- A store that has seen no nonce. -/
def MemoryNonceStore.new : MemoryNonceStore := { used := .empty }

/-- `consume` of the in-process store. -/
def MemoryNonceStore.consume (store : MemoryNonceStore) (scope nonce requestId : String) :
    ConsumeResult × MemoryNonceStore :=
  if store.used.has (nonceText scope nonce) then (.replayed, store)
  else (.consumed, { used := store.used.set (nonceText scope nonce) requestId })

/-- The file store: the files of its directory by name. -/
structure FileNonceStore where
  files : OrderedMap String String

/-- What the file system does with one attempt. -/
inductive FileFault
  /-- Nothing goes wrong. -/
  | none
  /-- The file cannot be opened, for another reason than that it exists. -/
  | cannotOpen
  /-- The file is created, then writing or closing it fails. -/
  | cannotWrite
  deriving DecidableEq, Repr

section

variable (H : Host)

/-- The file a nonce is remembered by. -/
def nonceFile (scope nonce : String) : String := toHex (H.sha256 (utf8 (nonceText scope nonce)))

/-- `consume` of the file store; creation is exclusive. -/
def FileNonceStore.consume (store : FileNonceStore) (fault : FileFault)
    (scope nonce requestId : String) : ConsumeResult × FileNonceStore :=
  let name := nonceFile H scope nonce
  if fault = .cannotOpen then (.unavailable, store)
  else if store.files.has name then (.replayed, store)
  else if fault = .cannotWrite then (.unavailable, { files := store.files.set name "" })
  else (.consumed, { files := store.files.set name requestId })

/-- A store of one machine. -/
inductive LocalNonceStore
  | memory (store : MemoryNonceStore)
  | file (store : FileNonceStore)

namespace LocalNonceStore

/-- Consume a nonce; only a file store can meet a fault. -/
def consume (store : LocalNonceStore) (fault : FileFault) (scope nonce requestId : String) :
    ConsumeResult × LocalNonceStore :=
  match store with
  | memory m => (m.consume scope nonce requestId).map id memory
  | file f => (f.consume H fault scope nonce requestId).map id file

/-- A store remembers a nonce. -/
def Remembers (store : LocalNonceStore) (scope nonce : String) : Prop :=
  match store with
  | memory m => m.used.has (nonceText scope nonce) = true
  | file f => f.files.has (nonceFile H scope nonce) = true

/-- A store with a nonce written down. -/
def remember (store : LocalNonceStore) (scope nonce text : String) : LocalNonceStore :=
  match store with
  | memory m => memory { used := m.used.set (nonceText scope nonce) text }
  | file f => file { files := f.files.set (nonceFile H scope nonce) text }

/-- What one consume can do: leave the store alone and not answer `consumed`, or write down a
nonce it did not remember. -/
theorem consume_cases (store : LocalNonceStore) (fault : FileFault)
    (scope nonce requestId : String) :
    ((store.consume H fault scope nonce requestId).1 ≠ .consumed ∧
        (store.consume H fault scope nonce requestId).2 = store) ∨
      (¬store.Remembers H scope nonce ∧
        ∃ text, (store.consume H fault scope nonce requestId).2 =
          store.remember H scope nonce text) := by
  cases store with
  | memory m =>
    by_cases hm : m.used.has (nonceText scope nonce) = true
    · simp only [consume, MemoryNonceStore.consume, hm, if_true]
      exact Or.inl ⟨nofun, rfl⟩
    · simp only [consume, MemoryNonceStore.consume, hm]
      exact Or.inr ⟨hm, requestId, rfl⟩
  | file f =>
    by_cases hopen : fault = .cannotOpen
    · simp only [consume, FileNonceStore.consume, hopen, if_true]
      exact Or.inl ⟨nofun, rfl⟩
    · by_cases hf : f.files.has (nonceFile H scope nonce) = true
      · simp only [consume, FileNonceStore.consume, hopen, hf, if_true, if_false]
        exact Or.inl ⟨nofun, rfl⟩
      · by_cases hwrite : fault = .cannotWrite
        · simp only [consume, FileNonceStore.consume, hf, hwrite, if_true]
          exact Or.inr ⟨hf, "", rfl⟩
        · simp only [consume, FileNonceStore.consume, hopen, hf, hwrite, if_false]
          exact Or.inr ⟨hf, requestId, rfl⟩

/-- A nonce the store does not remember is usable. -/
theorem consume_of_not_remembers {store : LocalNonceStore} {scope nonce : String}
    (h : ¬store.Remembers H scope nonce) (requestId : String) :
    (store.consume H .none scope nonce requestId).1 = .consumed := by
  cases store with
  | memory m =>
    have hm : ¬m.used.has (nonceText scope nonce) = true := h
    simp only [consume, MemoryNonceStore.consume, hm, Bool.false_eq_true, if_false, Prod.map_fst,
      id]
  | file f =>
    have hf : ¬f.files.has (nonceFile H scope nonce) = true := h
    simp only [consume, FileNonceStore.consume, reduceCtorEq, hf, Bool.false_eq_true, if_false,
      Prod.map_fst, id]

/-- A nonce written down is remembered. -/
theorem remembers_remember_self (store : LocalNonceStore) (scope nonce text : String) :
    (store.remember H scope nonce text).Remembers H scope nonce := by
  cases store with
  | memory m => simp only [remember, Remembers, OrderedMap.has, OrderedMap.get_set_self,
      Option.isSome_some]
  | file f => simp only [remember, Remembers, OrderedMap.has, OrderedMap.get_set_self,
      Option.isSome_some]

/-- Writing a nonce down forgets no other. -/
theorem Remembers.remember {store : LocalNonceStore} {scope nonce : String}
    (h : store.Remembers H scope nonce) (scope' nonce' text : String) :
    (store.remember H scope' nonce' text).Remembers H scope nonce := by
  have hset : ∀ (m : OrderedMap String String) (k k' : String), m.has k = true →
      (m.set k' text).has k = true := by
    intro m k k' hk
    unfold OrderedMap.has at hk ⊢
    rw [OrderedMap.get_set]
    split
    · rfl
    · exact hk
  cases store with
  | memory m => exact hset m.used _ _ h
  | file f => exact hset f.files _ _ h

end LocalNonceStore

end

end CoolSdk
