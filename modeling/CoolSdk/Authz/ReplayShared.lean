import CoolSdk.Authz.Replay
import Mathlib.Algebra.Order.Floor.Ring
import Mathlib.Data.Rat.Floor

/-!
# Replay stores shared across machines

Every backend reduces to one primitive, insert if absent with a time to live. `Memory` is
what a backend remembers and since when; it may forget a key once the time to live has
passed. The PostgreSQL and the DynamoDB statements are run on their own rows and simulate
the primitive, forgetting at most that much.
-/

namespace CoolSdk

/-- A remembered key: the request it was used for, and the moment of its insertion. -/
structure Stored where
  requestId : String
  insertedAt : ℚ
  deriving DecidableEq, Repr

/-- What a backend remembers. -/
abbrev Memory := String → Option Stored

namespace Memory

/-- Insert a key unless it is there; whether it was inserted. -/
def insertIfAbsent (m : Memory) (key value : String) (now : ℚ) : Bool × Memory :=
  match m key with
  | some _ => (false, m)
  | none => (true, Function.update m key (some ⟨value, now⟩))

/-- The memory without a key. -/
def forget (m : Memory) (key : String) : Memory := Function.update m key none

/-- A key may be forgotten once its time to live has passed since its insertion. -/
def MayForget (m : Memory) (ttlMs : ℚ) (key : String) (now : ℚ) : Prop :=
  ∀ e, m key = some e → e.insertedAt + ttlMs ≤ now

instance (m : Memory) (ttlMs : ℚ) (key : String) (now : ℚ) :
    Decidable (m.MayForget ttlMs key now) :=
  match h : m key with
  | none => isTrue fun e he => by rw [h] at he; cases he
  | some e => decidable_of_iff (e.insertedAt + ttlMs ≤ now) (by
      constructor
      · intro hle e' he'
        rw [h, Option.some.injEq] at he'
        exact he' ▸ hle
      · intro hall
        exact hall e h)

/-- A memory that has kept or rightly forgotten one key. -/
def Kept (m : Memory) (ttlMs : ℚ) (key : String) (now : ℚ) (m' : Memory) : Prop :=
  m' = m ∨ m.MayForget ttlMs key now ∧ m' = m.forget key

/-- A memory holds on to what it stored until the time to live has passed. -/
def Keeps (m : Memory) (ttlMs now : ℚ) (m' : Memory) : Prop :=
  ∀ key e, m key = some e → m' key = some e ∨ e.insertedAt + ttlMs ≤ now

/-- Inserting loses nothing. -/
theorem keeps_insertIfAbsent (m : Memory) (ttlMs : ℚ) (key value : String) (now : ℚ) :
    m.Keeps ttlMs now (m.insertIfAbsent key value now).2 := by
  intro k e he
  left
  unfold insertIfAbsent
  cases hkey : m key with
  | some _ => exact he
  | none =>
    have hk : k ≠ key := by
      rintro rfl
      rw [hkey] at he
      cases he
    simp only [Function.update_of_ne hk, he]

/-- Forgetting what may be forgotten loses nothing early. -/
theorem MayForget.keeps {m : Memory} {ttlMs : ℚ} {key : String} {now : ℚ}
    (h : m.MayForget ttlMs key now) : m.Keeps ttlMs now (m.forget key) := by
  intro k e he
  by_cases hk : k = key
  · subst hk
    exact Or.inr (h e he)
  · left
    rw [forget, Function.update_of_ne hk, he]

/-- An insertion that succeeds found the key absent and leaves it there. -/
theorem insertIfAbsent_fst {m : Memory} {key value : String} {now : ℚ}
    (h : (m.insertIfAbsent key value now).1 = true) :
    m key = none ∧ (m.insertIfAbsent key value now).2 key = some ⟨value, now⟩ := by
  unfold insertIfAbsent at h ⊢
  cases hkey : m key with
  | some e => simp only [hkey, Bool.false_eq_true] at h
  | none => exact ⟨rfl, Function.update_self key _ m⟩

end Memory

/-- The store over a backend. Its constructor refuses a time to live that is not positive. -/
structure SharedNonceStore where
  ttlMs : ℚ
  keyPrefix : String := "cool:nonce:"
  positive : 0 < ttlMs

/-- The constructor. -/
def SharedNonceStore.new (ttlMs : ℚ) (keyPrefix : Option String) :
    Except String SharedNonceStore :=
  if h : 0 < ttlMs then .ok { ttlMs, keyPrefix := keyPrefix.getD "cool:nonce:", positive := h }
  else .error "ttlMs must be positive"

/-- `keyOf`: the key a nonce is remembered by. -/
def SharedNonceStore.keyOf (H : Host) (store : SharedNonceStore) (scope nonce : String) : String :=
  store.keyPrefix ++ nonceFile H scope nonce

/-! ## PostgreSQL -/

/-- A row of the nonce table. -/
structure NonceRow where
  requestId : String
  expiresAt : ℚ

/-- The nonce table by key. -/
abbrev NonceTable := OrderedMap String NonceRow

namespace NonceTable

/-- `DELETE … WHERE k = $1 AND expires_at < now()`. -/
def deleteExpired (t : NonceTable) (key : String) (now : ℚ) : NonceTable :=
  match t.get key with
  | some row => if row.expiresAt < now then t.erase key else t
  | none => t

/-- `INSERT … ON CONFLICT (k) DO NOTHING`, with the number of rows written. -/
def insertRow (t : NonceTable) (key value : String) (ttlMs now : ℚ) : Nat × NonceTable :=
  if t.has key then (0, t) else (1, t.set key { requestId := value, expiresAt := now + ttlMs })

/-- `postgresAtomicInsert`: the two statements, at their own moments. -/
def postgresInsert (t : NonceTable) (key value : String) (ttlMs deletedAt insertedAt : ℚ) :
    Bool × NonceTable :=
  let r := (t.deleteExpired key deletedAt).insertRow key value ttlMs insertedAt
  (decide (r.1 = 1), r.2)

/-- What a table remembers. -/
def memory (t : NonceTable) (ttlMs : ℚ) : Memory :=
  fun key => (t.get key).map fun row => ⟨row.requestId, row.expiresAt - ttlMs⟩

/-- The deletion forgets one key, and only when its time to live has passed. -/
theorem kept_deleteExpired (t : NonceTable) (ttlMs : ℚ) (key : String) (now : ℚ) :
    (t.memory ttlMs).Kept ttlMs key now ((t.deleteExpired key now).memory ttlMs) := by
  unfold deleteExpired
  cases hrow : t.get key with
  | none => exact Or.inl rfl
  | some row =>
    by_cases hexpired : row.expiresAt < now
    · simp only [hexpired, if_true]
      refine Or.inr ⟨?_, ?_⟩
      · intro e he
        simp only [memory, hrow, Option.map_some, Option.some.injEq] at he
        subst he
        simp only [sub_add_cancel]
        exact hexpired.le
      · funext k
        by_cases hk : key = k
        · subst hk
          simp only [memory, Memory.forget, OrderedMap.get_erase_self, Option.map_none,
            Function.update_self]
        · simp only [memory, Memory.forget, OrderedMap.get_erase_ne t hk,
            Function.update_of_ne (Ne.symm hk)]
    · simp only [hexpired, if_false]
      exact Or.inl rfl

/-- The insertion is the primitive. -/
theorem insertRow_memory (t : NonceTable) (key value : String) (ttlMs now : ℚ) :
    (decide ((t.insertRow key value ttlMs now).1 = 1),
        (t.insertRow key value ttlMs now).2.memory ttlMs) =
      (t.memory ttlMs).insertIfAbsent key value now := by
  unfold insertRow Memory.insertIfAbsent
  cases hrow : t.get key with
  | some row => simp [OrderedMap.has, memory, hrow]
  | none =>
    have hmemory : t.memory ttlMs key = none := by rw [memory, hrow, Option.map_none]
    simp only [OrderedMap.has, hrow, Option.isSome_none, Bool.false_eq_true, if_false, hmemory,
      decide_true]
    congr 1
    funext k
    by_cases hk : key = k
    · subst hk
      simp only [memory, OrderedMap.get_set_self, Option.map_some, Function.update_self,
        add_sub_cancel_right]
    · simp only [memory, OrderedMap.get_set_ne t _ hk, Function.update_of_ne (Ne.symm hk)]

/-- The two statements together forget at most what they may, then insert if absent. -/
theorem postgresInsert_simulates (t : NonceTable) (key value : String)
    (ttlMs deletedAt insertedAt : ℚ) :
    ∃ m, (t.memory ttlMs).Kept ttlMs key deletedAt m ∧
      ((t.postgresInsert key value ttlMs deletedAt insertedAt).1,
          (t.postgresInsert key value ttlMs deletedAt insertedAt).2.memory ttlMs) =
        m.insertIfAbsent key value insertedAt :=
  ⟨_, t.kept_deleteExpired ttlMs key deletedAt,
    (t.deleteExpired key deletedAt).insertRow_memory key value ttlMs insertedAt⟩

end NonceTable

/-! ## DynamoDB -/

/-- An item of the nonce table; its expiry counts whole seconds. -/
structure NonceItem where
  requestId : String
  expiresAt : Int

/-- The items by key. -/
abbrev NonceItems := OrderedMap String NonceItem

namespace NonceItems

/-- `dynamoDbAtomicInsert`: put the item on the condition
`attribute_not_exists(k) OR expires_at < :now`, at the caller's reading of the clock. -/
def dynamoDbInsert (t : NonceItems) (key value : String) (ttlMs now : ℚ) : Bool × NonceItems :=
  let nowS := ⌊now / 1000⌋
  let item : NonceItem := { requestId := value, expiresAt := nowS + ⌈ttlMs / 1000⌉ }
  match t.get key with
  | none => (true, t.set key item)
  | some old => if old.expiresAt < nowS then (true, t.set key item) else (false, t)

/-- Items that stand for a memory: each was put at the moment the memory records. -/
def Represents (t : NonceItems) (ttlMs : ℚ) (m : Memory) : Prop :=
  ∀ key, t.get key =
    (m key).map fun e => ⟨e.requestId, ⌊e.insertedAt / 1000⌋ + ⌈ttlMs / 1000⌉⟩

/-- An item that counts as expired is older than its time to live. -/
theorem ttl_passed {insertedAt ttlMs now : ℚ}
    (h : ⌊insertedAt / 1000⌋ + ⌈ttlMs / 1000⌉ < ⌊now / 1000⌋) : insertedAt + ttlMs ≤ now := by
  have hinserted := Int.lt_floor_add_one (insertedAt / 1000)
  have httl := Int.le_ceil (ttlMs / 1000)
  have hnow := Int.floor_le (now / 1000)
  have hstep : (⌊insertedAt / 1000⌋ : ℚ) + ⌈ttlMs / 1000⌉ + 1 ≤ ⌊now / 1000⌋ := by
    exact_mod_cast Int.add_one_le_of_lt h
  linarith

/-- An item put for a key stands for the key's insertion. -/
private theorem Represents.set {t : NonceItems} {ttlMs : ℚ} {m m' : Memory} {key value : String}
    {now : ℚ} (h : t.Represents ttlMs m) (hm : ∀ k, key ≠ k → m' k = m k) :
    Represents (t.set key { requestId := value, expiresAt := ⌊now / 1000⌋ + ⌈ttlMs / 1000⌉ }) ttlMs
      (Function.update m' key (some ⟨value, now⟩)) := by
  intro k
  by_cases hk : key = k
  · subst hk
    simp only [OrderedMap.get_set_self, Function.update_self, Option.map_some]
  · rw [OrderedMap.get_set_ne t _ hk, Function.update_of_ne (Ne.symm hk), hm k hk, h k]

/-- The conditional put forgets at most what it may, then inserts if absent. -/
theorem dynamoDbInsert_simulates {t : NonceItems} {ttlMs : ℚ} {m : Memory}
    (h : t.Represents ttlMs m) (key value : String) (now : ℚ) :
    ∃ m', m.Kept ttlMs key now m' ∧
      (t.dynamoDbInsert key value ttlMs now).1 = (m'.insertIfAbsent key value now).1 ∧
        (t.dynamoDbInsert key value ttlMs now).2.Represents ttlMs
          (m'.insertIfAbsent key value now).2 := by
  have hkey := h key
  unfold dynamoDbInsert
  cases hm : m key with
  | none =>
    rw [hm, Option.map_none] at hkey
    refine ⟨m, Or.inl rfl, ?_, ?_⟩
    · simp only [hkey, Memory.insertIfAbsent, hm]
    · simp only [hkey, Memory.insertIfAbsent, hm]
      exact h.set fun _ _ => rfl
  | some e =>
    rw [hm, Option.map_some] at hkey
    by_cases hexpired : ⌊e.insertedAt / 1000⌋ + ⌈ttlMs / 1000⌉ < ⌊now / 1000⌋
    · have hforgot : m.forget key key = none := by rw [Memory.forget, Function.update_self]
      refine ⟨m.forget key, Or.inr ⟨?_, rfl⟩, ?_, ?_⟩
      · intro e' he'
        rw [hm, Option.some.injEq] at he'
        exact he' ▸ ttl_passed hexpired
      · simp only [hkey, hexpired, if_true, Memory.insertIfAbsent, hforgot]
      · simp only [hkey, hexpired, if_true, Memory.insertIfAbsent, hforgot]
        exact h.set fun k hk => by rw [Memory.forget, Function.update_of_ne (Ne.symm hk)]
    · refine ⟨m, Or.inl rfl, ?_, ?_⟩
      · simp only [hkey, hexpired, if_false, Memory.insertIfAbsent, hm]
      · simp only [hkey, hexpired, if_false, Memory.insertIfAbsent, hm]
        exact h

end NonceItems

end CoolSdk
