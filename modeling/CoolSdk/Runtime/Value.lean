import CoolSdk.Core.OrderedMap
import CoolSdk.Runtime.Number
import Mathlib.Data.List.Sort
import Mathlib.Data.String.Basic

/-!
# JavaScript values

The values that cross the package's boundary: what a caller passes as parameters,
facts or payload, and what a signed body is before it is encoded. Strings are
sequences of Unicode scalar values. An object lists its own enumerable members in
insertion order.
-/

namespace CoolSdk

/-- A byte string. -/
abbrev Bytes := List UInt8

/-- A JavaScript value. -/
inductive JsValue
  | undefined
  | null
  | bool (value : Bool)
  | num (value : JsNumber)
  | str (value : String)
  /-- A `Uint8Array`. -/
  | bytes (value : Bytes)
  | array (items : List JsValue)
  /-- An object whose prototype is `Object.prototype`. -/
  | object (members : List (String × JsValue))
  /-- An object with any other prototype: a date, a class instance, a null prototype. -/
  | custom (members : List (String × JsValue))
  /-- A function, a bigint or a symbol, by its `typeof`. -/
  | foreign (typeName : String)
  deriving Repr

namespace JsValue

/-- The members of an object under construction. -/
abbrev Members := List (String × JsValue)

/-- `typeof value`. -/
def typeOf : JsValue → String
  | undefined => "undefined"
  | null | bytes _ | array _ | object _ | custom _ => "object"
  | bool _ => "boolean"
  | num _ => "number"
  | str _ => "string"
  | foreign t => t

/-- Whether a value is `undefined`. -/
def isUndefined : JsValue → Bool
  | undefined => true
  | _ => false

/-- The operator `===`. Objects are equal by identity, and two values that arrived separately
share no object. -/
def strictEquals : JsValue → JsValue → Bool
  | undefined, undefined | null, null => true
  | bool a, bool b => decide (a = b)
  | num a, num b => a.strictEq b
  | str a, str b => decide (a = b)
  | _, _ => false

/-- The equality of `includes`: `===`, but `NaN` is equal to itself. -/
def sameValueZero (a b : JsValue) : Bool :=
  match a, b with
  | num .nan, num .nan => true
  | _, _ => a.strictEquals b

/-- `out[k] = v` on a fresh object literal. Assigning the name `__proto__` replaces
the prototype instead of creating a member, so nothing is added. -/
def assign (out : Members) (k : String) (v : JsValue) : Members :=
  if k = "__proto__" then out else Entries.set out k v

mutual

/-- Drop undefined members at every depth, rebuilding each object. -/
def clean : JsValue → JsValue
  | array xs => array (cleanItems xs)
  | object ms => object (cleanMembers ms [])
  | custom ms => object (cleanMembers ms [])
  | v => v

/-- `value.map(clean)`. -/
def cleanItems : List JsValue → List JsValue
  | [] => []
  | x :: xs => clean x :: cleanItems xs

/-- The loop of `clean` over `Object.entries`. -/
def cleanMembers : Members → Members → Members
  | [], out => out
  | (k, v) :: ms, out => cleanMembers ms (if v.isUndefined then out else assign out k (clean v))

end

/-- Order of text keys under deterministic encoding: the shorter encoding first, then
bytewise, which for UTF-8 is the order of the code points. -/
def keyLe (a b : String) : Bool :=
  decide (a.utf8ByteSize < b.utf8ByteSize) ||
    (decide (a.utf8ByteSize = b.utf8ByteSize) && decide (a ≤ b))

theorem keyLe_refl (a : String) : keyLe a a = true := by simp [keyLe]

theorem keyLe_total (a b : String) : keyLe a b = true ∨ keyLe b a = true := by
  simp only [keyLe, Bool.or_eq_true, Bool.and_eq_true, decide_eq_true_eq]
  rcases lt_trichotomy a.utf8ByteSize b.utf8ByteSize with h | h | h
  · exact Or.inl (Or.inl h)
  · rcases le_total a b with hab | hba
    · exact Or.inl (Or.inr ⟨h, hab⟩)
    · exact Or.inr (Or.inr ⟨h.symm, hba⟩)
  · exact Or.inr (Or.inl h)

theorem keyLe_trans {a b c : String} (hab : keyLe a b = true) (hbc : keyLe b c = true) :
    keyLe a c = true := by
  simp only [keyLe, Bool.or_eq_true, Bool.and_eq_true, decide_eq_true_eq] at *
  rcases hab with hab | ⟨hab, hle⟩
  · exact Or.inl (by omega)
  · rcases hbc with hbc | ⟨hbc, hle'⟩
    · exact Or.inl (by omega)
    · exact Or.inr ⟨hab.trans hbc, hle.trans hle'⟩

theorem keyLe_antisymm {a b : String} (hab : keyLe a b = true) (hba : keyLe b a = true) :
    a = b := by
  simp only [keyLe, Bool.or_eq_true, Bool.and_eq_true, decide_eq_true_eq] at *
  rcases hab with hab | ⟨_, hle⟩
  · omega
  · rcases hba with hba | ⟨_, hle'⟩
    · omega
    · exact le_antisymm hle hle'

/-- Members compare by their keys alone. -/
def memberLe (a b : String × JsValue) : Prop := keyLe a.1 b.1 = true

instance : DecidableRel memberLe := fun a b => inferInstanceAs (Decidable (keyLe a.1 b.1 = true))

instance : Std.Total memberLe := ⟨fun a b => keyLe_total a.1 b.1⟩

instance : IsTrans (String × JsValue) memberLe := ⟨fun _ _ _ h h' => keyLe_trans h h'⟩

/-- Members in deterministic key order; equal keys keep their order. -/
def sortMembers (ms : Members) : Members := ms.insertionSort memberLe

mutual

/-- The value with the members of every object in deterministic key order. -/
def sortKeys : JsValue → JsValue
  | array xs => array (sortKeysItems xs)
  | object ms => object (sortMembers (sortKeysMembers ms))
  | custom ms => custom (sortMembers (sortKeysMembers ms))
  | v => v

def sortKeysItems : List JsValue → List JsValue
  | [] => []
  | x :: xs => sortKeys x :: sortKeysItems xs

def sortKeysMembers : Members → Members
  | [] => []
  | (k, v) :: ms => (k, sortKeys v) :: sortKeysMembers ms

end

mutual

/-- Whether a value is built from plain data alone, each object with distinct keys. -/
def plain : JsValue → Bool
  | array xs => plainItems xs
  | object ms => decide (ms.map Prod.fst).Nodup && plainMembers ms
  | custom _ | foreign _ => false
  | _ => true

def plainItems : List JsValue → Bool
  | [] => true
  | x :: xs => plain x && plainItems xs

def plainMembers : Members → Bool
  | [] => true
  | (_, v) :: ms => plain v && plainMembers ms

end

theorem sortKeysMembers_eq_map (ms : Members) :
    sortKeysMembers ms = ms.map fun m => (m.1, sortKeys m.2) := by
  induction ms with
  | nil => rfl
  | cons m ms ih => simp [sortKeysMembers, ih]

theorem sortKeysItems_eq_map (xs : List JsValue) : sortKeysItems xs = xs.map sortKeys := by
  induction xs with
  | nil => rfl
  | cons x xs ih => simp [sortKeysItems, ih]

theorem plainMembers_iff (ms : Members) : plainMembers ms = true ↔ ∀ e ∈ ms, plain e.2 = true := by
  induction ms with
  | nil => simp [plainMembers]
  | cons e ms ih =>
    obtain ⟨k, v⟩ := e
    simp only [plainMembers, Bool.and_eq_true, ih, List.mem_cons, forall_eq_or_imp]

/-- A list built from plain values is plain. -/
theorem plainItems_map {α : Type} {f : α → JsValue} {l : List α}
    (h : ∀ a ∈ l, (f a).plain = true) : plainItems (l.map f) = true := by
  induction l with
  | nil => rfl
  | cons a l ih =>
    rw [List.forall_mem_cons] at h
    rw [List.map_cons, plainItems, h.1, ih h.2, Bool.and_self]

theorem plain_object_iff (ms : Members) :
    (object ms).plain = true ↔ (ms.map Prod.fst).Nodup ∧ ∀ e ∈ ms, plain e.2 = true := by
  rw [plain, Bool.and_eq_true, decide_eq_true_eq, plainMembers_iff]

/-- Assigning a plain value keeps an object plain. -/
theorem plain_assign {out : Members} {k : String} {v : JsValue} (hout : (object out).plain = true)
    (hv : v.plain = true) : (object (assign out k v)).plain = true := by
  unfold assign
  by_cases hk : k = "__proto__"
  · rwa [if_pos hk]
  · rw [if_neg hk, plain_object_iff]
    rw [plain_object_iff] at hout
    refine ⟨Entries.nodup_set hout.1 k v, ?_⟩
    intro e he
    rcases Entries.mem_set he with rfl | he
    · exact hv
    · exact hout.2 e he

mutual

/-- Dropping undefined members keeps a value plain. -/
theorem plain_clean {v : JsValue} (h : v.plain = true) : v.clean.plain = true := by
  match v with
  | array xs => exact plainItems_cleanItems h
  | object ms =>
    rw [plain, Bool.and_eq_true] at h
    exact plain_cleanMembers h.2 rfl
  | undefined | null | bool _ | num _ | str _ | bytes _ => rfl

theorem plainItems_cleanItems {xs : List JsValue} (h : plainItems xs = true) :
    plainItems (cleanItems xs) = true := by
  match xs with
  | [] => rfl
  | x :: xs =>
    rw [plainItems, Bool.and_eq_true] at h
    rw [cleanItems, plainItems, plain_clean h.1, plainItems_cleanItems h.2, Bool.and_self]

theorem plain_cleanMembers {ms out : Members} (h : plainMembers ms = true)
    (hout : (object out).plain = true) : (object (cleanMembers ms out)).plain = true := by
  match ms with
  | [] => exact hout
  | (k, v) :: ms =>
    rw [plainMembers, Bool.and_eq_true] at h
    rw [cleanMembers]
    by_cases hv : v.isUndefined = true
    · rw [if_pos hv]
      exact plain_cleanMembers h.2 hout
    · rw [if_neg hv]
      exact plain_cleanMembers h.2 (plain_assign hout (plain_clean h.1))

end

theorem keys_sortKeysMembers (ms : Members) :
    (sortKeysMembers ms).map Prod.fst = ms.map Prod.fst := by
  rw [sortKeysMembers_eq_map, List.map_map]
  rfl

/-- Objects that are equal up to member order have the same keys. -/
theorem mem_keys_of_sortKeys_eq {ms ns : Members}
    (h : (object ms).sortKeys = (object ns).sortKeys) (k : String) :
    k ∈ ms.map Prod.fst ↔ k ∈ ns.map Prod.fst := by
  have hsorted (l : Members) : k ∈ l.map Prod.fst ↔
      k ∈ (sortMembers (sortKeysMembers l)).map Prod.fst := by
    rw [sortMembers, ((List.perm_insertionSort memberLe _).map Prod.fst).mem_iff,
      keys_sortKeysMembers]
  simp only [sortKeys, object.injEq] at h
  rw [hsorted ms, hsorted ns, h]

end JsValue

/-- A type of protocol objects with the JavaScript value it stands for. -/
class ToJs (α : Type) where
  /-- The object literal, absent optional members included as `undefined`. -/
  toJs : α → JsValue

export ToJs (toJs)

/-- Keep an optional text only when it is non-empty, as `&&` does. -/
def nonEmpty (text : Option String) : Option String := text.filter fun s => decide (s ≠ "")

/-- An optional member: `undefined` when absent. -/
def optional {α : Type} (f : α → JsValue) : Option α → JsValue
  | none => .undefined
  | some a => f a

end CoolSdk
