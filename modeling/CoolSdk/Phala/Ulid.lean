import CoolSdk.Phala.Fields

/-!
# Monotonic record ids

The generator of record ids: ten base32 digits of the time and sixteen random ones, which are
incremented instead of drawn again within one millisecond. Every id it returns is well formed.
-/

namespace CoolSdk

/-- A draw of the platform's random source. -/
abbrev RandomBytes (n : Nat) := { bytes : Bytes // bytes.length = n }

/-- A fresh salt of 16 bytes. -/
def randomSalt (salt : RandomBytes 16) : String := toHexField salt.val

/-- A fresh salt is a hex field. -/
theorem test_randomSalt (salt : RandomBytes 16) : HEX_FIELD.test (randomSalt salt) = true := by
  refine test_toHexField fun h => ?_
  have hlength := salt.property
  rw [h] at hlength
  cases hlength

namespace Ulid

/-- Crockford base32. -/
def ALPHABET : List Char := "0123456789ABCDEFGHJKMNPQRSTVWXYZ".toList

def TIME_CHARS : Nat := 10

def RANDOM_CHARS : Nat := 16

def MAX_TIME : Nat := 281474976710655

/-- `ALPHABET[n]`, for an index below 32. -/
def digit (n : Nat) : Char := ALPHABET.getD n '0'

/-- The lowest digits of a value in front of those already written. -/
def timeDigits : Nat → Nat → List Char → List Char
  | 0, _, out => out
  | i + 1, value, out => timeDigits i (value / 32) (digit (value % 32) :: out)

def encodeTime (ms : JsNumber) : Except String (List Char) :=
  match (JsValue.num ms).natural with
  | .ok value =>
    if value ≤ MAX_TIME then .ok (timeDigits TIME_CHARS value []) else .error "out of range"
  | .error _ => .error "out of range"

/-- Five bits of each random byte. -/
def randomChars (random : RandomBytes RANDOM_CHARS) : List Char :=
  random.val.map fun b => digit (b.toNat &&& 31)

/-- Add one to the last digit, carrying leftwards; whether the carry leaves the first. -/
def carry : List Char → Bool × List Char
  | [] => (true, [])
  | c :: chars =>
    match carry chars with
    | (false, out) => (false, c :: out)
    | (true, out) =>
      let next := match ALPHABET.idxOf? c with
        | some index => index + 1
        | none => 0
      if next < ALPHABET.length then (false, digit next :: out) else (true, digit 0 :: out)

def increment (chars : List Char) : Except String (List Char) :=
  match carry chars with
  | (false, out) => .ok out
  | (true, _) => .error "ulid: randomness overflow within a single millisecond"

/-- What the generator remembers of its last call. -/
structure Memory where
  lastTime : JsNumber
  lastRandom : List Char

def Memory.initial : Memory := { lastTime := .ofInt (-1), lastRandom := [] }

/-- The digits behind the time: the last ones plus one within a millisecond, else new ones. -/
def Memory.random (m : Memory) (time : JsNumber) (fresh : RandomBytes RANDOM_CHARS) :
    Except String (List Char) :=
  if time.strictEq m.lastTime then increment m.lastRandom else .ok (randomChars fresh)

/-- One call of the generator. -/
def ulid (time : JsNumber) (fresh : RandomBytes RANDOM_CHARS) (m : Memory) :
    Except String String × Memory :=
  match m.random time fresh with
  | .error e => (.error e, m)
  | .ok random =>
    ((encodeTime time).map fun chars => String.ofList (chars ++ random),
      { lastTime := if time.strictEq m.lastTime then m.lastTime else time, lastRandom := random })

/-! ## Every id is well formed -/

/-- Digits of the alphabet, so many of them. -/
def Digits (n : Nat) (chars : List Char) : Prop := chars.length = n ∧ ∀ c ∈ chars, c ∈ ALPHABET

private theorem digit_mem (n : Nat) : digit n ∈ ALPHABET := by
  rw [digit, List.getD_eq_getElem?_getD]
  cases h : ALPHABET[n]? with
  | none => decide
  | some c => exact List.mem_of_getElem? h

private theorem utf8_of_mem {c : Char} (h : c ∈ ALPHABET) :
    (String.utf8EncodeChar c).map isUlidChar = [true] := by
  have hall : ALPHABET.all (fun c => (String.utf8EncodeChar c).map isUlidChar == [true]) = true := by
    decide +kernel
  exact beq_iff_eq.mp (List.all_eq_true.mp hall c h)

/-- A text of digits is as long as they are, and the pattern has them all. -/
theorem Digits.test {n : Nat} {chars : List Char} (h : Digits n chars) :
    (utf8 (String.ofList chars)).length = n ∧
      (utf8 (String.ofList chars)).all isUlidChar = true := by
  obtain ⟨rfl, hmem⟩ := h
  rw [utf8_ofList]
  induction chars with
  | nil => exact ⟨rfl, rfl⟩
  | cons c chars ih =>
    rw [List.forall_mem_cons] at hmem
    obtain ⟨b, hb, hdigit⟩ := List.map_eq_singleton_iff.mp (utf8_of_mem hmem.1)
    obtain ⟨hlength, hall⟩ := ih hmem.2
    rw [List.flatMap_cons, hb, List.singleton_append]
    exact ⟨by rw [List.length_cons, List.length_cons, hlength],
      by rw [List.all_cons, hdigit, hall, Bool.and_self]⟩

theorem Digits.append {m n : Nat} {chars chars' : List Char} (h : Digits m chars)
    (h' : Digits n chars') : Digits (m + n) (chars ++ chars') := by
  refine ⟨by rw [List.length_append, h.1, h'.1], fun c hc => ?_⟩
  rcases List.mem_append.mp hc with hc | hc
  · exact h.2 c hc
  · exact h'.2 c hc

private theorem digits_timeDigits {n : Nat} {out : List Char} (h : Digits n out) (i value : Nat) :
    Digits (i + n) (timeDigits i value out) := by
  induction i generalizing n value out with
  | zero => rwa [Nat.zero_add]
  | succ i ih =>
    have hnext : Digits (n + 1) (digit (value % 32) :: out) :=
      ⟨by rw [List.length_cons, h.1], List.forall_mem_cons.mpr ⟨digit_mem _, h.2⟩⟩
    have := ih hnext (value / 32)
    rwa [show i + (n + 1) = i + 1 + n by omega] at this

private theorem digits_carry {n : Nat} {chars : List Char} (h : Digits n chars) :
    Digits n (carry chars).2 := by
  obtain ⟨rfl, hmem⟩ := h
  induction chars with
  | nil => exact ⟨rfl, hmem⟩
  | cons c chars ih =>
    rw [List.forall_mem_cons] at hmem
    obtain ⟨hlength, hall⟩ := ih hmem.2
    rcases hcarry : carry chars with ⟨left, out⟩
    rw [hcarry] at hlength hall
    have hcons : ∀ d ∈ ALPHABET, Digits (chars.length + 1) (d :: out) := fun d hd =>
      ⟨by rw [List.length_cons, hlength], List.forall_mem_cons.mpr ⟨hd, hall⟩⟩
    cases left with
    | false =>
      rw [carry, hcarry]
      exact hcons c hmem.1
    | true =>
      simp only [carry, hcarry]
      split <;> split <;> exact hcons _ (digit_mem _)

/-- Incrementing keeps the digits. -/
theorem digits_increment {n : Nat} {chars out : List Char} (h : Digits n chars)
    (hok : increment chars = .ok out) : Digits n out := by
  have hcarry := digits_carry h
  unfold increment at hok
  split at hok
  · rename_i hout
    cases hok
    rwa [hout] at hcarry
  · cases hok

/-- The generator holds the digits it returned last, if it returned any. -/
def Memory.Valid (m : Memory) : Prop :=
  m = .initial ∨ Digits RANDOM_CHARS m.lastRandom

private theorem digits_randomChars (fresh : RandomBytes RANDOM_CHARS) :
    Digits RANDOM_CHARS (randomChars fresh) := by
  refine ⟨by rw [randomChars, List.length_map, fresh.property], fun c hc => ?_⟩
  obtain ⟨b, _, rfl⟩ := List.mem_map.mp hc
  exact digit_mem _

private theorem digits_random {m : Memory} (h : m.Valid) {time : JsNumber}
    {fresh : RandomBytes RANDOM_CHARS} {random : List Char}
    (hok : m.random time fresh = .ok random) : Digits RANDOM_CHARS random := by
  unfold Memory.random at hok
  split at hok
  · rcases h with rfl | h
    · -- nothing was returned yet, and there is nothing to increment
      cases hok
    · exact digits_increment h hok
  · cases hok
    exact digits_randomChars fresh

/-- A call keeps the generator's memory valid, and an id it returns is well formed. -/
theorem ulid_valid {m : Memory} (h : m.Valid) (time : JsNumber)
    (fresh : RandomBytes RANDOM_CHARS) :
    (ulid time fresh m).2.Valid ∧ ∀ id, (ulid time fresh m).1 = .ok id → ULID.test id = true := by
  unfold ulid
  split
  · exact ⟨h, fun _ hid => by cases hid⟩
  · rename_i random hrandom
    have hdigits := digits_random h hrandom
    refine ⟨.inr hdigits, fun id hid => ?_⟩
    obtain ⟨chars, hchars, rfl⟩ := ok_of_map_eq hid
    unfold encodeTime at hchars
    split at hchars
    · rename_i value _
      split at hchars
      · cases hchars
        have htime : Digits (TIME_CHARS + 0) (timeDigits TIME_CHARS value []) :=
          digits_timeDigits ⟨rfl, fun c hc => by cases hc⟩ TIME_CHARS value
        obtain ⟨hlength, hall⟩ := (htime.append hdigits).test
        have h26 : (utf8 (String.ofList (timeDigits TIME_CHARS value [] ++ random))).length = 26 :=
          hlength
        simp only [ULID, h26, hall, decide_true, Bool.and_self]
      · cases hchars
    · cases hchars

/-- A generator in use: the calls made of it so far. -/
def run (calls : List (JsNumber × RandomBytes RANDOM_CHARS)) : Memory :=
  calls.foldl (fun m call => (ulid call.1 call.2 m).2) .initial

theorem run_valid (calls : List (JsNumber × RandomBytes RANDOM_CHARS)) : (run calls).Valid := by
  have hstep : ∀ (calls : List (JsNumber × RandomBytes RANDOM_CHARS)) (m : Memory), m.Valid →
      (calls.foldl (fun m call => (ulid call.1 call.2 m).2) m).Valid := by
    intro calls
    induction calls with
    | nil => exact fun _ h => h
    | cons call calls ih => exact fun m h => ih _ (ulid_valid h call.1 call.2).1
  exact hstep calls .initial (.inl rfl)

end Ulid

end CoolSdk
