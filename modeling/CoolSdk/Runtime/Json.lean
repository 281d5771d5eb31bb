import CoolSdk.Core.Fallible
import CoolSdk.Core.KeyedList
import CoolSdk.Runtime.Host

/-!
# Values parsed from JSON

Reading a member of a value, which throws on `null` and `undefined` alone, and the text a value
is coerced to, which throws on an object whose own `toString` hides the inherited one. An object
parsed from JSON lists its members in the order `Object.entries` does.
-/

namespace CoolSdk

namespace JsValue

/-- What reading a member of nothing throws. -/
def readError (of_ name : String) : String :=
  "Cannot read properties of " ++ of_ ++ " (reading '" ++ name ++ "')"

/-- `bag[name]` on an object, for a name that no prototype carries. -/
def member (ms : Members) (name : String) : JsValue := (Entries.get ms name).getD undefined

/-- `value.name`, for a name that no prototype carries. -/
def read (name : String) : JsValue → Except String JsValue
  | undefined => .error (readError "undefined" name)
  | null => .error (readError "null" name)
  | object ms | custom ms => .ok (member ms name)
  | _ => .ok undefined

/-- Whether `??` takes its other side. -/
def nullish : JsValue → Bool
  | undefined | null => true
  | _ => false

/-- Whether a value counts as true in a condition. -/
def truthy : JsValue → Bool
  | undefined | null => false
  | bool b => b
  | num n => n.truthy
  | str s => decide (s ≠ "")
  | _ => true

mutual

/-- Whether a value is one that JSON can spell. -/
def json : JsValue → Bool
  | null | bool _ | str _ | num (.finite _) | num .negZero => true
  | array xs => jsonItems xs
  | object ms => decide (ms.map Prod.fst).Nodup && jsonMembers ms
  | _ => false

def jsonItems : List JsValue → Bool
  | [] => true
  | x :: xs => json x && jsonItems xs

def jsonMembers : Members → Bool
  | [] => true
  | (_, v) :: ms => json v && jsonMembers ms

end

mutual

/-- What JSON spells is plain. -/
theorem plain_of_json {v : JsValue} (h : v.json = true) : v.plain = true := by
  match v with
  | null | bool _ | str _ | num _ => rfl
  | array xs => exact plainItems_of_jsonItems h
  | object ms =>
    rw [json, Bool.and_eq_true] at h
    rw [plain, h.1, plainMembers_of_jsonMembers h.2, Bool.and_self]

theorem plainItems_of_jsonItems {xs : List JsValue} (h : jsonItems xs = true) :
    plainItems xs = true := by
  match xs with
  | [] => rfl
  | x :: xs =>
    rw [jsonItems, Bool.and_eq_true] at h
    rw [plainItems, plain_of_json h.1, plainItems_of_jsonItems h.2, Bool.and_self]

theorem plainMembers_of_jsonMembers {ms : Members} (h : jsonMembers ms = true) :
    plainMembers ms = true := by
  match ms with
  | [] => rfl
  | (k, v) :: ms =>
    rw [jsonMembers, Bool.and_eq_true] at h
    rw [plainMembers, plain_of_json h.1, plainMembers_of_jsonMembers h.2, Bool.and_self]

end

theorem jsonMembers_iff (ms : Members) : jsonMembers ms = true ↔ ∀ e ∈ ms, json e.2 = true := by
  induction ms with
  | nil => simp [jsonMembers]
  | cons e ms ih =>
    obtain ⟨k, v⟩ := e
    simp only [jsonMembers, Bool.and_eq_true, ih, List.mem_cons, forall_eq_or_imp]

theorem jsonItems_iff (xs : List JsValue) : jsonItems xs = true ↔ ∀ x ∈ xs, json x = true := by
  induction xs with
  | nil => simp [jsonItems]
  | cons x xs ih => simp only [jsonItems, Bool.and_eq_true, ih, List.mem_cons, forall_eq_or_imp]

/-- A member of an object that JSON spells is spelled too, or missing. -/
theorem json_member {ms : Members} (h : (object ms).json = true) (name : String) :
    (member ms name).json = true ∨ member ms name = undefined := by
  rw [json, Bool.and_eq_true, jsonMembers_iff] at h
  rw [member]
  cases hv : Entries.get ms name with
  | none => exact .inr rfl
  | some v => exact .inl (h.2 _ (Entries.mem_of_get hv))

/-! ## Members of plain values -/

/-- What is read of a plain value is plain. -/
theorem plain_read {v w : JsValue} {name : String} (hv : v.plain = true)
    (h : v.read name = .ok w) : w.plain = true := by
  cases v with
  | object ms =>
    cases h
    rw [member]
    cases hget : Entries.get ms name with
    | none => rfl
    | some w => exact ((plain_object_iff ms).mp hv).2 _ (Entries.mem_of_get hget)
  | null | undefined => cases h
  | custom _ | foreign _ => cases hv
  | bytes _ | bool _ | num _ | str _ | array _ =>
    cases h
    rfl

/-- Objects that are equal up to member order have members that are. -/
theorem member_congr {ms ns : Members} (hm : (object ms).plain = true)
    (hn : (object ns).plain = true) (h : (object ms).sortKeys = (object ns).sortKeys)
    (name : String) : (member ms name).sortKeys = (member ns name).sortKeys := by
  have hsorted : ∀ l : Members, (object l).plain = true →
      Entries.get (sortMembers (sortKeysMembers l)) name = (Entries.get l name).map sortKeys := by
    intro l hl
    have hnodup : ((sortKeysMembers l).map Prod.fst).Nodup := by
      rw [keys_sortKeysMembers]
      exact ((plain_object_iff l).mp hl).1
    rw [sortMembers,
      ← Entries.get_eq_of_perm hnodup (List.perm_insertionSort memberLe _).symm,
      sortKeysMembers_eq_map, Entries.get_map]
  have hget : (Entries.get ms name).map sortKeys = (Entries.get ns name).map sortKeys := by
    simp only [sortKeys, object.injEq] at h
    rw [← hsorted ms hm, ← hsorted ns hn, h]
  have hvalue : ∀ o : Option JsValue, (o.getD undefined).sortKeys =
      (o.map sortKeys).getD undefined := by
    intro o
    cases o <;> rfl
  rw [member, member, hvalue, hvalue, hget]

/-- Reading values that are equal up to member order gives values that are. -/
theorem read_congr {v w v' w' : JsValue} {name : String} (hv : v.plain = true)
    (hw : w.plain = true) (h : v.sortKeys = w.sortKeys) (hv' : v.read name = .ok v')
    (hw' : w.read name = .ok w') : v'.sortKeys = w'.sortKeys := by
  cases v with
  | object ms =>
    cases w with
    | object ns =>
      cases hv'
      cases hw'
      exact member_congr hv hw h name
    | _ => cases h
  | null | undefined => cases hv'
  | custom _ | foreign _ => cases hv
  | bytes _ | bool _ | num _ | str _ | array _ =>
    cases w with
    | object _ | custom _ | null | undefined => cases h
    | _ =>
      cases hv'
      cases hw'
      rfl

/-- A text is equal to nothing but itself. -/
theorem eq_str_of_sortKeys {v : JsValue} {s : String} (h : v.sortKeys = (str s).sortKeys) :
    v = str s := by
  cases v with
  | str t => exact h
  | _ => cases h

/-! ## Coercion to text -/

section

variable (H : Host)

mutual

/-- `String(value)`, and the text a template, a pattern's `test` or a member access makes of a
value. An object's own `toString` is no function, and `valueOf` gives the object back. -/
def toText : JsValue → Except String String
  | undefined => .ok "undefined"
  | null => .ok "null"
  | bool b => .ok (if b then "true" else "false")
  | num n => .ok (H.numberText n)
  | str s => .ok s
  | array xs => do
    let parts ← itemTexts xs
    return ",".intercalate parts
  | object ms =>
    if (Entries.get ms "toString").isSome then .error "Cannot convert object to primitive value"
    else .ok "[object Object]"
  | v => H.textOf v

/-- The parts of `Array.prototype.join`, which leaves `null` and `undefined` out. -/
def itemTexts : List JsValue → Except String (List String)
  | [] => .ok []
  | x :: xs => do
    let part ← (if x.nullish then .ok "" else toText x : Except String String)
    let parts ← itemTexts xs
    return part :: parts

end

end

mutual

/-- Whether a value parsed from JSON has a text. -/
def printable : JsValue → Bool
  | array xs => printableItems xs
  | object ms => (Entries.get ms "toString").isNone
  | _ => true

def printableItems : List JsValue → Bool
  | [] => true
  | x :: xs => printable x && printableItems xs

end

mutual

/-- A value parsed from JSON has a text exactly when it is printable. -/
theorem toText_isOk (H : Host) {v : JsValue} (h : v.json = true) :
    (v.toText H).isOk = v.printable := by
  match v with
  | null | bool _ | str _ | num _ => rfl
  | array xs =>
    have hxs : (itemTexts H xs).isOk = printableItems xs := itemTexts_isOk H h
    rw [toText, printable, ← hxs]
    cases itemTexts H xs <;> rfl
  | object ms =>
    rw [toText, printable]
    cases Entries.get ms "toString" <;> rfl

theorem itemTexts_isOk (H : Host) {xs : List JsValue} (h : jsonItems xs = true) :
    (itemTexts H xs).isOk = printableItems xs := by
  match xs with
  | [] => rfl
  | x :: xs =>
    rw [jsonItems, Bool.and_eq_true] at h
    have hx := toText_isOk H h.1
    have hxs := itemTexts_isOk H h.2
    have hpart : (if x.nullish then .ok "" else toText H x : Except String String).isOk =
        (toText H x).isOk := by
      cases x <;> rfl
    rw [printableItems, ← hx, ← hxs, ← hpart, itemTexts]
    cases (if x.nullish then .ok "" else toText H x : Except String String) <;>
      cases itemTexts H xs <;> rfl

end

end JsValue

end CoolSdk
