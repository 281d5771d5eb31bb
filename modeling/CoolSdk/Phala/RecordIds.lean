import CoolSdk.Core.Positional
import CoolSdk.Phala.Ulid

/-!
# The order of record ids

An id is a number in 26 digits: the millisecond, and a suffix that is drawn where the clock enters
a millisecond and counts the calls within it. So ids increase while the clock does not go back,
and two of them are equal where both numbers are.
-/

namespace CoolSdk.Ulid

/-! ## Digits of a number -/

/-- So many digits that spell a number, most significant first. -/
def Spells (n v : Nat) (chars : List Char) : Prop :=
  ∃ ds : List Nat, ds.length = n ∧ (∀ d ∈ ds, d < 32) ∧ Positional.value 32 ds = v ∧
    chars = ds.map digit

private theorem digit_lt : ∀ e < 32, ∀ d < e, digit d < digit e := by decide

private theorem idxOf?_digit : ∀ d < 32, ALPHABET.idxOf? (digit d) = some d := by decide

private theorem map_digit_lt {ds es : List Nat} (hlen : ds.length = es.length)
    (hds : ∀ d ∈ ds, d < 32) (hes : ∀ e ∈ es, e < 32) : ds.map digit < es.map digit ↔ ds < es := by
  induction ds generalizing es with
  | nil =>
    cases es with
    | nil => exact iff_of_false (lt_irrefl _) (lt_irrefl _)
    | cons e es => cases hlen
  | cons d ds ih =>
    cases es with
    | nil => cases hlen
    | cons e es =>
      rw [List.length_cons, List.length_cons, Nat.add_right_cancel_iff] at hlen
      rw [List.forall_mem_cons] at hds hes
      rw [List.map_cons, List.map_cons, List.cons_lt_cons_iff, List.cons_lt_cons_iff,
        ih hlen hds.2 hes.2]
      rcases lt_trichotomy d e with h | rfl | h
      · exact iff_of_true (.inl (digit_lt e hes.1 d h)) (.inl h)
      · simp only [lt_irrefl, false_or, true_and]
      · have hdigit := digit_lt d hds.1 e h
        simp only [hdigit.not_gt, hdigit.ne', h.not_gt, h.ne', false_and, or_self]

variable {m n u v : Nat} {chars chars' : List Char}

/-- Texts of as many digits are ordered as their numbers are. -/
theorem Spells.lt_iff (h : Spells n u chars) (h' : Spells n v chars') :
    chars < chars' ↔ u < v := by
  obtain ⟨ds, hlen, hds, rfl, rfl⟩ := h
  obtain ⟨es, hlen', hes, rfl, rfl⟩ := h'
  rw [map_digit_lt (hlen.trans hlen'.symm) hds hes]
  exact Positional.lt_iff_value_lt (by decide) (hlen.trans hlen'.symm) hds hes

theorem Spells.eq_iff (h : Spells n u chars) (h' : Spells n v chars') :
    chars = chars' ↔ u = v := by
  have hlt := h.lt_iff h'
  have hgt := h'.lt_iff h
  constructor
  · rintro rfl
    exact le_antisymm (not_lt.mp fun hvu => lt_irrefl _ (hgt.mpr hvu))
      (not_lt.mp fun huv => lt_irrefl _ (hlt.mpr huv))
  · rintro rfl
    exact le_antisymm (not_lt.mp fun hlt' => lt_irrefl _ (hgt.mp hlt'))
      (not_lt.mp fun hlt' => lt_irrefl _ (hlt.mp hlt'))

theorem Spells.lt (h : Spells n v chars) : v < 32 ^ n := by
  obtain ⟨ds, rfl, hds, rfl, _⟩ := h
  exact Positional.value_lt (by decide) hds

theorem Spells.append (h : Spells m u chars) (h' : Spells n v chars') :
    Spells (m + n) (u * 32 ^ n + v) (chars ++ chars') := by
  obtain ⟨ds, rfl, hds, rfl, rfl⟩ := h
  obtain ⟨es, rfl, hes, rfl, rfl⟩ := h'
  refine ⟨ds ++ es, List.length_append, ?_, Positional.value_append 32 ds es,
    List.map_append.symm⟩
  exact List.forall_mem_append.mpr ⟨hds, hes⟩

/-! ## What the generator writes -/

/-- The lowest digits of a value in front of those already written. -/
theorem spells_timeDigits (h : Spells n v chars) (i value : Nat) :
    Spells (i + n) (value % 32 ^ i * 32 ^ n + v) (timeDigits i value chars) := by
  induction i generalizing n v chars value with
  | zero =>
    rw [Nat.pow_zero, Nat.mod_one, Nat.zero_mul, Nat.zero_add, Nat.zero_add]
    exact h
  | succ i ih =>
    have hone : Spells 1 (value % 32) [digit (value % 32)] :=
      ⟨[value % 32], rfl, List.forall_mem_singleton.mpr (Nat.mod_lt _ (by decide)), by
        rw [Positional.value_cons, Positional.value_nil, List.length_nil]
        omega, rfl⟩
    have hnext := ih (hone.append h) (value / 32)
    have hnumber : value / 32 % 32 ^ i * 32 ^ (1 + n) + (value % 32 * 32 ^ n + v) =
        value % 32 ^ (i + 1) * 32 ^ n + v := by
      have hmod : value % 32 ^ (i + 1) = value % 32 + 32 * (value / 32 % 32 ^ i) := by
        rw [Nat.pow_succ', Nat.mod_mul]
      rw [hmod, Nat.pow_add, Nat.pow_one]
      ring
    rw [hnumber, show i + (1 + n) = i + 1 + n by omega] at hnext
    exact hnext

/-- The number that is drawn of sixteen random bytes. -/
def drawn (fresh : RandomBytes RANDOM_CHARS) : Nat :=
  Positional.value 32 (fresh.val.map fun b => b.toNat &&& 31)

theorem spells_randomChars (fresh : RandomBytes RANDOM_CHARS) :
    Spells RANDOM_CHARS (drawn fresh) (randomChars fresh) := by
  refine ⟨fresh.val.map fun b => b.toNat &&& 31, ?_, ?_, rfl, ?_⟩
  · rw [List.length_map, fresh.property]
  · intro d hd
    obtain ⟨b, _, rfl⟩ := List.mem_map.mp hd
    exact Nat.lt_succ_of_le Nat.and_le_right
  · rw [randomChars, List.map_map]
    rfl

/-- Carrying counts up by one, and out of the first digit where all of them were the last. -/
theorem Spells.carry (h : Spells n v chars) :
    if v + 1 < 32 ^ n then (Ulid.carry chars).1 = false ∧ Spells n (v + 1) (Ulid.carry chars).2
    else (Ulid.carry chars).1 = true ∧ Spells n 0 (Ulid.carry chars).2 := by
  obtain ⟨ds, rfl, hds, rfl, rfl⟩ := h
  induction ds with
  | nil => exact ⟨rfl, [], rfl, List.forall_mem_nil _, rfl, rfl⟩
  | cons d ds ih =>
    rw [List.forall_mem_cons] at hds
    have hvalue := Positional.value_lt (by decide) hds.2
    have hcons : ∀ e < 32, ∀ {w out}, Spells ds.length w out →
        Spells (ds.length + 1) (e * 32 ^ ds.length + w) (digit e :: out) := by
      rintro e he w out ⟨es, hlen, hes, rfl, rfl⟩
      exact ⟨e :: es, by rw [List.length_cons, hlen], List.forall_mem_cons.mpr ⟨he, hes⟩,
        by rw [Positional.value_cons, hlen], rfl⟩
    have hnext := ih hds.2
    rw [Positional.value_cons, List.length_cons, List.map_cons, Ulid.carry, Nat.pow_succ']
    rcases hcarry : Ulid.carry (ds.map digit) with ⟨left, out⟩
    rw [hcarry] at hnext
    have hmul := Nat.mul_le_mul_right (32 ^ ds.length) (Nat.succ_le_of_lt hds.1)
    rw [Nat.succ_mul] at hmul
    by_cases hlt : Positional.value 32 ds + 1 < 32 ^ ds.length
    · rw [if_pos hlt] at hnext
      obtain ⟨rfl, hout⟩ := hnext
      rw [if_pos (by omega)]
      exact ⟨rfl, Nat.add_assoc _ _ 1 ▸ hcons d hds.1 hout⟩
    · rw [if_neg hlt] at hnext
      obtain ⟨rfl, hout⟩ := hnext
      simp only [idxOf?_digit d hds.1]
      have hlength : ALPHABET.length = 32 := rfl
      rw [hlength]
      by_cases hlast : d + 1 < 32
      · have hmul' := Nat.mul_le_mul_right (32 ^ ds.length) (Nat.succ_le_of_lt hlast)
        have hsum : d * 32 ^ ds.length + Positional.value 32 ds + 1 =
            (d + 1) * 32 ^ ds.length + 0 := by
          rw [Nat.succ_mul]
          omega
        rw [Nat.succ_mul, Nat.succ_mul] at hmul'
        rw [if_pos hlast, if_pos (by omega), hsum]
        exact ⟨rfl, hcons (d + 1) hlast hout⟩
      · have hd : d = 31 := by omega
        subst hd
        rw [if_neg hlast, if_neg (by omega)]
        have hzero := hcons 0 (by decide) hout
        rw [Nat.zero_mul, Nat.zero_add] at hzero
        exact ⟨rfl, hzero⟩

theorem Spells.increment (h : Spells n v chars) :
    (v + 1 < 32 ^ n → ∃ out, Ulid.increment chars = .ok out ∧ Spells n (v + 1) out) ∧
      (¬v + 1 < 32 ^ n → ∃ e, Ulid.increment chars = .error e) := by
  have hcarry := h.carry
  unfold Ulid.increment
  rcases hout : Ulid.carry chars with ⟨left, out⟩
  rw [hout] at hcarry
  split_ifs at hcarry with hlt
  · obtain ⟨rfl, hspells⟩ := hcarry
    exact ⟨fun _ => ⟨out, rfl, hspells⟩, fun hge => absurd hlt hge⟩
  · obtain ⟨rfl, _⟩ := hcarry
    exact ⟨fun hlt' => absurd hlt' hlt, fun _ => ⟨_, rfl⟩⟩

/-- A clock reading that the generator can encode, as a count of milliseconds. -/
def InRange (time : JsNumber) (ms : Nat) : Prop :=
  (JsValue.num time).natural = .ok ms ∧ ms ≤ MAX_TIME

theorem InRange.strictEq {time time' : JsNumber} {ms ms' : Nat} (h : InRange time ms)
    (h' : (JsValue.num time').natural = .ok ms') : time.strictEq time' = decide (ms = ms') := by
  have hposition : ∀ {t : JsNumber} {k : Nat}, (JsValue.num t).natural = .ok k →
      t.position? = some (0, (k : ℚ)) := by
    intro t k hk
    cases t with
    | negZero =>
      cases hk
      rfl
    | finite q =>
      rw [JsValue.natural] at hk
      split_ifs at hk with hq
      cases hk
      have hnum : ((q.num.toNat : Int) : ℚ) = q := by
        rw [Int.toNat_of_nonneg hq.2]
        exact Rat.den_eq_one_iff q |>.mp hq.1
      exact congrArg (fun r => some ((0 : Int), r)) hnum.symm
    | _ => cases hk
  rw [JsNumber.strictEq, hposition h.1, hposition h']
  simp only [Prod.mk.injEq, true_and, Nat.cast_inj]

/-- An encodable time is encoded in ten digits. -/
theorem InRange.encodeTime {time : JsNumber} {ms : Nat} (h : InRange time ms) :
    ∃ chars, Ulid.encodeTime time = .ok chars ∧ Spells TIME_CHARS ms chars := by
  have hnone : Spells 0 0 [] := ⟨[], rfl, List.forall_mem_nil _, rfl, rfl⟩
  have hspells := spells_timeDigits hnone TIME_CHARS ms
  have hsmall : ms < 32 ^ TIME_CHARS := by
    have := h.2
    simp only [MAX_TIME, TIME_CHARS] at *
    omega
  rw [Nat.mod_eq_of_lt hsmall, Nat.pow_zero, Nat.mul_one, Nat.add_zero, Nat.add_zero] at hspells
  refine ⟨timeDigits TIME_CHARS ms [], ?_, hspells⟩
  simp only [Ulid.encodeTime, h.1, if_pos h.2]

/-! ## A generator in use -/

/-- The readings of the clock and the draws of the random source, call after call. -/
abbrev Calls := Nat → JsNumber × RandomBytes RANDOM_CHARS

/-- What the generator remembers after so many calls. -/
def memory (calls : Calls) : Nat → Memory
  | 0 => .initial
  | k + 1 => (ulid (calls k).1 (calls k).2 (memory calls k)).2

/-- What a call returns. -/
def issued (calls : Calls) (k : Nat) : Except String String :=
  (ulid (calls k).1 (calls k).2 (memory calls k)).1

/-- The suffix that is due at a call: drawn where the clock has moved, else one more. -/
def suffix (calls : Calls) (times : Nat → Nat) : Nat → Nat
  | 0 => drawn (calls 0).2
  | k + 1 => if times (k + 1) = times k then suffix calls times k + 1 else drawn (calls (k + 1)).2

/-- The generator remembers a millisecond and the suffix it last issued there. -/
def Memory.Holds (m : Memory) (ms v : Nat) : Prop :=
  (JsValue.num m.lastTime).natural = .ok ms ∧ Spells RANDOM_CHARS v m.lastRandom

section

variable {time : JsNumber} {ms : Nat} {fresh : RandomBytes RANDOM_CHARS} {mem : Memory}

/-- A call whose digits are found returns the millisecond and the digits. -/
private theorem ulid_of_random {random : List Char} (htime : InRange time ms)
    (hrandom : mem.random time fresh = .ok random) (hspells : Spells RANDOM_CHARS v random) :
    (∃ id, (ulid time fresh mem).1 = .ok id ∧
        Spells (TIME_CHARS + RANDOM_CHARS) (ms * 32 ^ RANDOM_CHARS + v) id.toList) ∧
      (ulid time fresh mem).2.lastRandom = random := by
  obtain ⟨chars, hchars, htimed⟩ := htime.encodeTime
  have hcall : ulid time fresh mem = (.ok (String.ofList (chars ++ random)),
      { lastTime := if time.strictEq mem.lastTime then mem.lastTime else time
        lastRandom := random }) := by
    rw [ulid, hrandom, hchars]
    rfl
  rw [hcall]
  refine ⟨⟨_, rfl, ?_⟩, rfl⟩
  rw [String.toList_ofList]
  exact htimed.append hspells

/-- Where the clock has moved, the suffix is drawn. -/
theorem ulid_moved (fresh : RandomBytes RANDOM_CHARS) (htime : InRange time ms)
    (hmoved : time.strictEq mem.lastTime = false) :
    (∃ id, (ulid time fresh mem).1 = .ok id ∧
        Spells (TIME_CHARS + RANDOM_CHARS) (ms * 32 ^ RANDOM_CHARS + drawn fresh) id.toList) ∧
      (ulid time fresh mem).2.Holds ms (drawn fresh) := by
  have hrandom : mem.random time fresh = .ok (randomChars fresh) := by
    rw [Memory.random, hmoved]
    rfl
  obtain ⟨hid, hlast⟩ := ulid_of_random htime hrandom (spells_randomChars fresh)
  refine ⟨hid, ?_, hlast ▸ spells_randomChars fresh⟩
  simp only [ulid, hrandom, hmoved]
  exact htime.1

/-- Where it has not, the suffix is the next one, as long as there is one. -/
theorem ulid_still (fresh : RandomBytes RANDOM_CHARS) (htime : InRange time ms)
    (hheld : mem.Holds ms v) :
    (v + 1 < 32 ^ RANDOM_CHARS → (∃ id, (ulid time fresh mem).1 = .ok id ∧
        Spells (TIME_CHARS + RANDOM_CHARS) (ms * 32 ^ RANDOM_CHARS + (v + 1)) id.toList) ∧
      (ulid time fresh mem).2.Holds ms (v + 1)) ∧
    (¬v + 1 < 32 ^ RANDOM_CHARS →
      (∃ e, (ulid time fresh mem).1 = .error e) ∧ (ulid time fresh mem).2 = mem) := by
  have hstill : time.strictEq mem.lastTime = true := by
    rw [htime.strictEq hheld.1, decide_eq_true_eq]
  have hrandom : mem.random time fresh = Ulid.increment mem.lastRandom := by
    rw [Memory.random, hstill]
    rfl
  obtain ⟨hnext, hover⟩ := hheld.2.increment
  constructor
  · intro hlt
    obtain ⟨out, hout, hspells⟩ := hnext hlt
    rw [hout] at hrandom
    obtain ⟨hid, hlast⟩ := ulid_of_random htime hrandom hspells
    refine ⟨hid, ?_, hlast ▸ hspells⟩
    simp only [ulid, hrandom, hstill]
    exact hheld.1
  · intro hge
    obtain ⟨e, he⟩ := hover hge
    rw [he] at hrandom
    rw [ulid, hrandom]
    exact ⟨⟨e, rfl⟩, rfl⟩

end

section

variable {calls : Calls} {times : Nat → Nat} {k : Nat}

/-- After a call the generator holds its millisecond and the last suffix that fitted, and the call
returned both as an id if its own suffix fitted. -/
structure Due (calls : Calls) (times : Nat → Nat) (k : Nat) : Prop where
  holds : (memory calls (k + 1)).Holds (times k)
    (min (suffix calls times k) (32 ^ RANDOM_CHARS - 1))
  returned : if suffix calls times k < 32 ^ RANDOM_CHARS then
      ∃ id, issued calls k = .ok id ∧ Spells (TIME_CHARS + RANDOM_CHARS)
        (times k * 32 ^ RANDOM_CHARS + suffix calls times k) id.toList
    else ∃ e, issued calls k = .error e

private theorem due_of_moved (htime : InRange (calls k).1 (times k))
    (hmoved : (calls k).1.strictEq (memory calls k).lastTime = false)
    (hsuffix : suffix calls times k = drawn (calls k).2) : Due calls times k := by
  have hlt := (spells_randomChars (calls k).2).lt
  obtain ⟨hid, hholds⟩ := ulid_moved (calls k).2 htime hmoved
  constructor
  · rw [hsuffix, Nat.min_eq_left (by omega)]
    exact hholds
  · rw [hsuffix, if_pos hlt]
    exact hid

/-- No time is the one that the generator starts with. -/
private theorem due_zero (htime : InRange (calls 0).1 (times 0)) : Due calls times 0 := by
  refine due_of_moved htime ?_ rfl
  have hnatural := htime.1
  cases hread : (calls 0).1 with
  | finite q =>
    rw [hread, JsValue.natural] at hnatural
    split_ifs at hnatural with hq
    refine decide_eq_false fun h => ?_
    have hq' : q = ((-1 : Int) : ℚ) := (Prod.mk.inj h).2
    rw [hq'] at hq
    exact absurd hq.2 (by decide)
  | _ => rfl

private theorem due_succ (htime : InRange (calls (k + 1)).1 (times (k + 1)))
    (h : Due calls times k) : Due calls times (k + 1) := by
  obtain ⟨hholds, _⟩ := h
  by_cases hsame : times (k + 1) = times k
  · have hsuffix : suffix calls times (k + 1) = suffix calls times k + 1 := if_pos hsame
    rw [← hsame] at hholds
    obtain ⟨hnext, hover⟩ := ulid_still (calls (k + 1)).2 htime hholds
    by_cases hlt : suffix calls times k + 1 < 32 ^ RANDOM_CHARS
    · rw [Nat.min_eq_left (by omega)] at hnext
      obtain ⟨hid, hholds⟩ := hnext hlt
      constructor
      · rw [hsuffix, Nat.min_eq_left (by omega)]
        exact hholds
      · rw [hsuffix, if_pos hlt]
        exact hid
    · have hmin : min (suffix calls times k) (32 ^ RANDOM_CHARS - 1) = 32 ^ RANDOM_CHARS - 1 := by
        omega
      rw [hmin] at hover hholds
      obtain ⟨herror, hkept⟩ := hover (by omega)
      constructor
      · rw [hsuffix, Nat.min_eq_right (by omega), memory, hkept]
        exact hholds
      · rw [hsuffix, if_neg hlt]
        exact herror
  · refine due_of_moved htime ?_ (if_neg hsame)
    rw [htime.strictEq hholds.1, decide_eq_false_iff_not]
    exact hsame

/-- Every call of a generator in use returns what is due. -/
theorem due (htimes : ∀ k, InRange (calls k).1 (times k)) (k : Nat) : Due calls times k := by
  induction k with
  | zero => exact due_zero (htimes 0)
  | succ k ih => exact due_succ (htimes (k + 1)) ih

theorem Due.of_issued (h : Due calls times k) {id : String} (hid : issued calls k = .ok id) :
    suffix calls times k < 32 ^ RANDOM_CHARS ∧ Spells (TIME_CHARS + RANDOM_CHARS)
      (times k * 32 ^ RANDOM_CHARS + suffix calls times k) id.toList := by
  have hissued := h.returned
  split_ifs at hissued with hlt
  · obtain ⟨id', hid', hspells⟩ := hissued
    cases hid.symm.trans hid'
    exact ⟨hlt, hspells⟩
  · obtain ⟨e, he⟩ := hissued
    cases hid.symm.trans he

/-- While the clock does not go back, the milliseconds do not either, and the suffix counts the
calls where they stay the same. -/
theorem times_le (calls : Calls) {i d : Nat} (h : ∀ k, i ≤ k → k < i + d → times k ≤ times (k + 1)) :
    times i ≤ times (i + d) ∧
      (times i = times (i + d) → suffix calls times (i + d) = suffix calls times i + d) := by
  induction d with
  | zero => exact ⟨le_rfl, fun _ => rfl⟩
  | succ d ih =>
    obtain ⟨hle, hcount⟩ := ih fun k hik hk => h k hik (by omega)
    have hstep := h (i + d) (by omega) (by omega)
    refine ⟨hle.trans hstep, fun hsame => ?_⟩
    have hlast : times (i + d + 1) = times (i + d) := by
      rw [← Nat.add_assoc] at hsame
      omega
    have hsuffix : suffix calls times (i + d + 1) = suffix calls times (i + d) + 1 := if_pos hlast
    rw [← Nat.add_assoc, hsuffix, hcount (by rw [← Nat.add_assoc] at hsame; omega), Nat.add_assoc]

/-- Ids of one generator increase while the clock does not go back, and across milliseconds always;
two of them are equal exactly where millisecond and suffix are; an id is returned as long as its
suffix fits. -/
theorem issued_ordered (htimes : ∀ k, InRange (calls k).1 (times k)) :
    (∀ i j id id', i < j → issued calls i = .ok id → issued calls j = .ok id' →
      ((∀ k, i ≤ k → k < j → times k ≤ times (k + 1)) → id < id') ∧
        (times i < times j → id < id') ∧ (times j < times i → id' < id) ∧
        (id = id' ↔ times i = times j ∧ suffix calls times i = suffix calls times j)) ∧
      (∀ k, (∃ id, issued calls k = .ok id) ↔ suffix calls times k < 32 ^ RANDOM_CHARS) ∧
      ∀ time time' ms ms', InRange time ms → InRange time' ms' → ms < ms' →
        ∃ chars chars', encodeTime time = .ok chars ∧ encodeTime time' = .ok chars' ∧
          String.ofList chars < String.ofList chars' := by
  refine ⟨?_, ?_, ?_⟩
  · intro i j id id' hij hid hid'
    obtain ⟨hlt, hspells⟩ := (due htimes i).of_issued hid
    obtain ⟨hlt', hspells'⟩ := (due htimes j).of_issued hid'
    have hearlier : ∀ {a b : Nat}, a < b →
        a * 32 ^ RANDOM_CHARS + 32 ^ RANDOM_CHARS ≤ b * 32 ^ RANDOM_CHARS := by
      intro a b hab
      rw [← Nat.succ_mul]
      exact Nat.mul_le_mul_right _ hab
    refine ⟨fun hforward => ?_, fun htime => ?_, fun htime => ?_, ?_⟩
    · rw [String.lt_iff_toList_lt, hspells.lt_iff hspells']
      obtain ⟨d, rfl⟩ := Nat.exists_eq_add_of_lt hij
      obtain ⟨hle, hcount⟩ := times_le calls (i := i) (d := d + 1)
        fun k hik hk => hforward k hik (by omega)
      rw [← Nat.add_assoc] at hle hcount
      rcases hle.lt_or_eq with htime | htime
      · have := hearlier htime
        omega
      · rw [hcount htime, htime]
        omega
    · rw [String.lt_iff_toList_lt, hspells.lt_iff hspells']
      have := hearlier htime
      omega
    · rw [String.lt_iff_toList_lt, hspells'.lt_iff hspells]
      have := hearlier htime
      omega
    · rw [← String.toList_inj, hspells.eq_iff hspells']
      constructor
      · intro hnumber
        rcases lt_trichotomy (times i) (times j) with htime | htime | htime
        · have := hearlier htime
          omega
        · rw [htime] at hnumber
          exact ⟨htime, Nat.add_left_cancel hnumber⟩
        · have := hearlier htime
          omega
      · rintro ⟨htime, hsuffix⟩
        rw [htime, hsuffix]
  · intro k
    have hdue := due htimes k
    constructor
    · rintro ⟨id, hid⟩
      exact (hdue.of_issued hid).1
    · intro hlt
      have hissued := hdue.returned
      rw [if_pos hlt] at hissued
      obtain ⟨id, hid, _⟩ := hissued
      exact ⟨id, hid⟩
  · intro time time' ms ms' htime htime' hlt
    obtain ⟨chars, hchars, hspells⟩ := htime.encodeTime
    obtain ⟨chars', hchars', hspells'⟩ := htime'.encodeTime
    refine ⟨chars, chars', hchars, hchars', ?_⟩
    rw [String.lt_iff_toList_lt, String.toList_ofList, String.toList_ofList,
      hspells.lt_iff hspells']
    exact hlt

end

end CoolSdk.Ulid

namespace CoolSdk.Reference

open Ulid

/-- A random source that gives zeros. -/
def zeros : RandomBytes RANDOM_CHARS := ⟨List.replicate 16 0, rfl⟩

/-- A clock that stands at a millisecond, for but one call. -/
def steppingClock (ms step : Nat) : Calls := fun k => (.ofInt (if k = 1 then step else ms), zeros)

/-- Two ids of a standing clock, the later the greater. -/
theorem issued_ordered_standing :
    issued (steppingClock 5 5) 0 = .ok "00000000050000000000000000" ∧
      issued (steppingClock 5 5) 1 = .ok "00000000050000000000000001" ∧
      "00000000050000000000000000" < "00000000050000000000000001" := by
  have htimes : ∀ k, InRange (steppingClock 5 5 k).1 5 := by
    intro k
    rw [steppingClock, ite_self]
    exact ⟨rfl, by decide⟩
  have hid : issued (steppingClock 5 5) 0 = .ok "00000000050000000000000000" := by
    decide
  have hid' : issued (steppingClock 5 5) 1 = .ok "00000000050000000000000001" := by
    decide
  exact ⟨hid, hid', ((issued_ordered htimes).1 0 1 _ _ Nat.one_pos hid hid').1 fun _ _ _ => le_rfl⟩

/-- A clock that goes back to a millisecond meets the suffix that was drawn there before. -/
theorem returning_clock_repeats_id :
    (∀ k, InRange (steppingClock 5 6 k).1 (if k = 1 then 6 else 5)) ∧
      issued (steppingClock 5 6) 0 = .ok "00000000050000000000000000" ∧
      issued (steppingClock 5 6) 1 = .ok "00000000060000000000000000" ∧
      issued (steppingClock 5 6) 2 = .ok "00000000050000000000000000" := by
  refine ⟨fun k => ?_, by decide, by decide, by decide⟩
  rw [steppingClock]
  split_ifs <;> exact ⟨rfl, by decide⟩

end CoolSdk.Reference
