import CoolSdk.Authz.PrincipalHistory
import CoolSdk.Core.Register

/-!
# The same evidence

A principal's state is a set of last-writer-wins registers: one for each key id, one for how it
ended, one for whether it is held. Events of different moments can therefore arrive in any order
and any number of times. Events of one moment are replayed in the order they arrived, so where
two of them write one register differently, two directories with the same evidence disagree,
unless what was written is never seen.
-/

namespace CoolSdk

open DirectoryHistory (eventTime Timed)

/-! ## Registers -/

/-- What an event can write. -/
inductive Register
  | key (keyId : String)
  /-- How the principal ended. -/
  | ended
  /-- Whether it is held. -/
  | held
  deriving DecidableEq, Repr

/-- A value written to a register. -/
inductive Written
  | bound (entry : DirectoryEntry)
  | unbound
  | revoked
  | decommissioned
  | suspended
  | reinstated
  deriving DecidableEq, Repr

/-- The register an event writes, and the value. -/
def PrincipalEvent.write? (ev : PrincipalEvent) : Option (Register × Written) :=
  match ev.kind with
  | .keyBound =>
    match ev.keyId, ev.entry with
    | some keyId, some entry => some (.key keyId, .bound entry)
    | _, _ => none
  | .keyRetired => ev.keyId.map fun keyId => (.key keyId, .unbound)
  | .suspended => some (.held, .suspended)
  | .reinstated => some (.held, .reinstated)
  | .revoked => some (.ended, .revoked)
  | .decommissioned => some (.ended, .decommissioned)

/-- What an event writes to a register. -/
def Register.write (r : Register) (ev : PrincipalEvent) : Option Written :=
  ev.write?.bind fun w => if w.1 = r then some w.2 else none

theorem Register.write_eq_some {r : Register} {ev : PrincipalEvent} {v : Written} :
    r.write ev = some v ↔ ev.write? = some (r, v) := by
  rw [Register.write, Option.bind_eq_some_iff]
  constructor
  · rintro ⟨⟨r', v'⟩, hw, h⟩
    split at h
    · rename_i hr
      cases h
      rw [hw, ← hr]
    · cases h
  · intro hw
    exact ⟨_, hw, if_pos rfl⟩

/-- What a register can hold. -/
def Register.Holds : Register → Written → Prop
  | .key _, v => v = .unbound ∨ ∃ entry, v = .bound entry
  | .ended, v => v = .revoked ∨ v = .decommissioned
  | .held, v => v = .suspended ∨ v = .reinstated

theorem Register.holds_of_write {r : Register} {ev : PrincipalEvent} {v : Written}
    (h : r.write ev = some v) : r.Holds v := by
  rw [Register.write_eq_some, PrincipalEvent.write?] at h
  cases hkind : ev.kind <;> simp only [hkind] at h
  case keyBound =>
    split at h
    · cases h
      exact .inr ⟨_, rfl⟩
    · cases h
  case keyRetired =>
    obtain ⟨keyId, _, h⟩ := Option.map_eq_some_iff.mp h
    cases h
    exact .inl rfl
  all_goals
    cases h
    simp [Register.Holds]

/-- The key of a register after a last write. -/
def Written.entryOr (before : Option DirectoryEntry) : Option Written → Option DirectoryEntry
  | none => before
  | some (.bound entry) => some entry
  | some _ => none

/-- The status after the last writes of how a principal ended and of whether it is held. -/
def Written.statusOf (ended held : Option Written) : PrincipalStatus :=
  if ended = some .revoked then .revoked
  else if ended = some .decommissioned then .decommissioned
  else if held = some .suspended then .suspended
  else .active

/-- Registers that are read alike and were written hold the same value, if they are read at all. -/
private theorem eq_of_read (regs regs' : Register → Option Written)
    (hstatus : Written.statusOf (regs .ended) (regs .held) =
      Written.statusOf (regs' .ended) (regs' .held))
    (hkeys : ∀ keyId, ∃ before, Written.entryOr before (regs (.key keyId)) =
      Written.entryOr before (regs' (.key keyId)))
    {r : Register} (hread : r = .held → regs .ended = none ∧ regs' .ended = none)
    {v w : Written} (hv : r.Holds v) (hw : r.Holds w) (h : regs r = some v)
    (h' : regs' r = some w) : v = w := by
  cases r with
  | key keyId =>
    obtain ⟨before, hkey⟩ := hkeys keyId
    rw [h, h'] at hkey
    rcases hv with rfl | ⟨entry, rfl⟩ <;> rcases hw with rfl | ⟨entry', rfl⟩ <;>
      simp_all [Written.entryOr]
  | ended =>
    rw [h, h'] at hstatus
    rcases hv with rfl | rfl <;> rcases hw with rfl | rfl <;> simp_all [Written.statusOf]
  | held =>
    obtain ⟨hnone, hnone'⟩ := hread rfl
    rw [h, h', hnone, hnone'] at hstatus
    rcases hv with rfl | rfl <;> rcases hw with rfl | rfl <;> simp_all [Written.statusOf]

/-- Where the end decides the status, the hold does not. -/
private theorem statusOf_ended {v : Written} (h : Register.ended.Holds v)
    (held held' : Option Written) :
    Written.statusOf (some v) held = Written.statusOf (some v) held' := by
  rcases h with rfl | rfl <;> simp [Written.statusOf]

/-- A replayed key is what was last written to its register. -/
theorem keys_replayed (es : List PrincipalEvent) (st : Standing) (keyId : String) :
    ((es.foldl Standing.apply st).keys.get keyId) =
      Written.entryOr (st.keys.get keyId) (lastWrite (Register.key keyId).write es) := by
  induction es using List.reverseRecOn with
  | nil => rfl
  | append_singleton es ev ih =>
    rw [List.foldl_append, List.foldl_cons, List.foldl_nil, lastWrite_concat]
    cases hkind : ev.kind with
    | keyBound =>
      cases hkey : ev.keyId with
      | none => simp [Standing.apply, Register.write, PrincipalEvent.write?, hkind, hkey, ih]
      | some k =>
        cases hentry : ev.entry with
        | none =>
          simp [Standing.apply, Register.write, PrincipalEvent.write?, hkind, hkey, hentry, ih]
        | some entry =>
          by_cases hk : k = keyId
          · simp [Standing.apply, Register.write, PrincipalEvent.write?, hkind, hkey, hentry, hk,
              Written.entryOr]
          · simp [Standing.apply, Register.write, PrincipalEvent.write?, hkind, hkey, hentry, hk,
              OrderedMap.get_set, ih]
    | keyRetired =>
      cases hkey : ev.keyId with
      | none => simp [Standing.apply, Register.write, PrincipalEvent.write?, hkind, hkey, ih]
      | some k =>
        by_cases hk : k = keyId
        · simp [Standing.apply, Register.write, PrincipalEvent.write?, hkind, hkey, hk,
            Written.entryOr, OrderedMap.get_erase_self]
        · simp [Standing.apply, Register.write, PrincipalEvent.write?, hkind, hkey, hk,
            OrderedMap.get_erase_ne _ hk, ih]
    | _ => simp [Standing.apply, Register.write, PrincipalEvent.write?, hkind, ih]

/-- Binding and retiring keys leave the status alone. -/
private theorem status_of_key (ev : PrincipalEvent)
    (hkind : ev.kind = .keyBound ∨ ev.kind = .keyRetired) (st : Standing) :
    (st.apply ev).status = st.status ∧ Register.ended.write ev = none ∧
      Register.held.write ev = none := by
  rcases hkind with hkind | hkind
  · simp only [Standing.apply, Register.write, PrincipalEvent.write?, hkind]
    cases ev.keyId with
    | none => exact ⟨rfl, rfl, rfl⟩
    | some keyId => cases ev.entry <;> exact ⟨rfl, rfl, rfl⟩
  · simp only [Standing.apply, Register.write, PrincipalEvent.write?, hkind]
    cases ev.keyId <;> exact ⟨rfl, rfl, rfl⟩

/-- A replayed status is what was last written of it. -/
theorem status_replayed (es : List PrincipalEvent) (keys : OrderedMap String DirectoryEntry) :
    (es.foldl Standing.apply ⟨.active, keys⟩).status =
      Written.statusOf (lastWrite Register.ended.write es) (lastWrite Register.held.write es) := by
  induction es using List.reverseRecOn with
  | nil => rfl
  | append_singleton es ev ih =>
    rw [List.foldl_append, List.foldl_cons, List.foldl_nil, lastWrite_concat, lastWrite_concat]
    cases hkind : ev.kind with
    | keyBound | keyRetired =>
      obtain ⟨hstatus, hended, hheld⟩ :=
        status_of_key ev (by simp [hkind]) (es.foldl Standing.apply ⟨.active, keys⟩)
      rw [hstatus, ih, hended, hheld, Option.none_or, Option.none_or]
    | suspended | reinstated =>
      simp only [Standing.apply, Register.write, PrincipalEvent.write?, hkind, ih]
      simp only [Written.statusOf]
      grind
    | revoked | decommissioned =>
      simp [Standing.apply, Register.write, PrincipalEvent.write?, hkind, Written.statusOf]

/-! ## Deliveries -/

namespace PrincipalDirectory

section

variable (H : Host)

/-- The directory after an event was handed to it. A call that throws leaves it as it was. -/
def handed (dir : PrincipalDirectory) (s : Signed PrincipalEvent) : PrincipalDirectory :=
  match dir.apply H s with
  | .error _ => dir
  | .ok (_, dir') => dir'

/-- The directory after a list of events was handed to it, in order. -/
def delivered (dir : PrincipalDirectory) (l : List (Signed PrincipalEvent)) : PrincipalDirectory :=
  l.foldl (handed H) dir

/-- Whether a directory accepts an event. -/
def accepts (dir : PrincipalDirectory) (s : Signed PrincipalEvent) : Bool :=
  match dir.apply H s with
  | .error _ => false
  | .ok (c, _) => decide (c.status = .pass)

/-- The events for a principal among a list that a directory accepts. -/
def acceptedFor (dir : PrincipalDirectory) (p : String) (l : List (Signed PrincipalEvent)) :
    List (Signed PrincipalEvent) :=
  l.filter fun s => decide (s.body.principalId = p) && dir.accepts H s

end

variable {H : Host}

/-- Two directories with one trust store and the same enrolled records. -/
structure SameRecords (dir dir' : PrincipalDirectory) : Prop where
  trust : dir'.trust = dir.trust
  records : ∀ q, (dir'.entries.get q).map PrincipalEntry.record =
    (dir.entries.get q).map PrincipalEntry.record

/-- Acceptance depends on the trust store and the enrolled record alone. -/
private theorem accepts_eq {dir dir' : PrincipalDirectory} (h : SameRecords dir dir')
    (s : Signed PrincipalEvent) : dir'.accepts H s = dir.accepts H s := by
  have hrecord := h.records s.body.principalId
  unfold accepts apply
  cases he : dir.entries.get s.body.principalId with
  | none =>
    rw [he, Option.map_none, Option.map_eq_none_iff] at hrecord
    rw [hrecord]
  | some e =>
    rw [he, Option.map_some, Option.map_eq_some_iff] at hrecord
    obtain ⟨e', he', hsame⟩ := hrecord
    rw [he', h.trust]
    simp only [hsame]
    cases verifyIntegrity H "cool.principal-event.v1" s
      ((dir.trust.get e.record.issuer).map KeyRecord.entry) with
    | error err => rfl
    | ok v =>
      simp only [ok_bind]
      split_ifs <;> rfl

private theorem apply_of_accepts {dir : PrincipalDirectory} {s : Signed PrincipalEvent}
    (h : dir.accepts H s = true) :
    ∃ e, dir.entries.get s.body.principalId = some e ∧
      dir.handed H s = { dir with entries := (dir.entries.set s.body.principalId
        { e with events := H.sort (compareEvents H) (e.events ++ [s.body]) }) } := by
  unfold accepts at h
  unfold handed
  cases ha : dir.apply H s with
  | error err =>
    rw [ha] at h
    cases h
  | ok r =>
    obtain ⟨c, dir'⟩ := r
    rw [ha] at h
    rcases apply_cases ha with ⟨hc, _⟩ | ⟨_, e, he, _, _, hdir⟩
    · exact absurd (of_decide_eq_true h) hc
    · exact ⟨e, he, hdir⟩

private theorem handed_of_rejected {dir : PrincipalDirectory} {s : Signed PrincipalEvent}
    (h : dir.accepts H s = false) : dir.handed H s = dir := by
  unfold accepts at h
  unfold handed
  cases ha : dir.apply H s with
  | error err => rfl
  | ok r =>
    obtain ⟨c, dir'⟩ := r
    rw [ha] at h
    rcases apply_cases ha with ⟨_, hdir⟩ | ⟨hc, _⟩
    · exact hdir
    · exact absurd hc (of_decide_eq_false h)

/-- Events change neither the trust store nor the enrolled records. -/
private theorem sameRecords_handed (dir : PrincipalDirectory) (s : Signed PrincipalEvent) :
    SameRecords dir (dir.handed H s) := by
  cases h : dir.accepts H s with
  | false =>
    rw [handed_of_rejected h]
    exact ⟨rfl, fun _ => rfl⟩
  | true =>
    obtain ⟨e, he, hdir⟩ := apply_of_accepts h
    rw [hdir]
    refine ⟨rfl, fun q => ?_⟩
    by_cases hq : s.body.principalId = q
    · subst hq
      rw [OrderedMap.get_set_self, he]
      rfl
    · rw [OrderedMap.get_set_ne _ _ hq]

private theorem sameRecords_delivered (dir : PrincipalDirectory)
    (l : List (Signed PrincipalEvent)) : SameRecords dir (dir.delivered H l) := by
  induction l using List.reverseRecOn with
  | nil => exact ⟨rfl, fun _ => rfl⟩
  | append_singleton l s ih =>
    rw [delivered, List.foldl_append, List.foldl_cons, List.foldl_nil]
    have hstep := sameRecords_handed (H := H) (dir.delivered H l) s
    exact ⟨hstep.trust.trans ih.trust, fun q => (hstep.records q).trans (ih.records q)⟩

/-! ## What is filed -/

/-- Events kept in time order, those of one moment as they arrived. -/
structure Filed (H : Host) (arrived events : List PrincipalEvent) : Prop where
  mem : ∀ ev, ev ∈ events ↔ ev ∈ arrived
  sorted : events.Pairwise fun a b => eventTime H a ≤ eventTime H b
  stable : ∀ t, (events.filter fun ev => eventTime H ev = t) =
    arrived.filter fun ev => eventTime H ev = t

private theorem Filed.concat (hsort : StableSort H) {arrived events : List PrincipalEvent}
    (h : Filed H arrived events) {ev : PrincipalEvent} (htimed : ∀ e ∈ arrived ++ [ev], Timed H e) :
    Filed H (arrived ++ [ev]) (H.sort (compareEvents H) (events ++ [ev])) := by
  have hmem : ∀ e, e ∈ events ++ [ev] ↔ e ∈ arrived ++ [ev] := fun e => by
    rw [List.mem_append, List.mem_append, h.mem]
  have hcompare := DirectoryHistory.compareEvents_timed (H := H) (l := events ++ [ev])
    fun e he => htimed e ((hmem e).mp he)
  refine ⟨fun e => ?_, hsort.sorted _ _ _ hcompare, fun t => ?_⟩
  · rw [(hsort.perm _ _).mem_iff, hmem]
  · rw [hsort.stable _ _ _ hcompare, List.filter_append, h.stable, List.filter_append]

/-- A principal's entry after a list of deliveries: its record, and the accepted events filed. -/
private theorem delivered_entry (hsort : StableSort H) {dir : PrincipalDirectory} {p : String}
    {record : PrincipalRecord} (hget : dir.entries.get p = some { record := record, events := [] })
    (l : List (Signed PrincipalEvent))
    (htimed : ∀ s ∈ dir.acceptedFor H p l, Timed H s.body) :
    ∃ events, (dir.delivered H l).entries.get p = some { record := record, events := events } ∧
      Filed H ((dir.acceptedFor H p l).map Signed.body) events := by
  induction l using List.reverseRecOn with
  | nil => exact ⟨[], hget, ⟨fun _ => Iff.rfl, List.Pairwise.nil, fun _ => rfl⟩⟩
  | append_singleton l s ih =>
    have hsplit : dir.acceptedFor H p (l ++ [s]) =
        dir.acceptedFor H p l ++ dir.acceptedFor H p [s] := List.filter_append _ _
    rw [hsplit] at htimed
    obtain ⟨events, hentry, hfiled⟩ := ih fun s' hs' => htimed s' (List.mem_append_left _ hs')
    have haccepts := accepts_eq (H := H) (sameRecords_delivered (H := H) dir l) s
    rw [delivered, List.foldl_append, List.foldl_cons, List.foldl_nil, ← delivered, hsplit]
    cases h : dir.accepts H s with
    | false =>
      rw [h] at haccepts
      rw [handed_of_rejected haccepts]
      have hnone : dir.acceptedFor H p [s] = [] := by
        simp [acceptedFor, h]
      rw [hnone, List.append_nil]
      exact ⟨events, hentry, hfiled⟩
    | true =>
      rw [h] at haccepts
      obtain ⟨e, he, hdir⟩ := apply_of_accepts haccepts
      rw [hdir]
      by_cases hp : s.body.principalId = p
      · have hone : dir.acceptedFor H p [s] = [s] := by
          simp [acceptedFor, h, hp]
        rw [hone] at htimed ⊢
        rw [hp, hentry, Option.some.injEq] at he
        subst he
        rw [hp, OrderedMap.get_set_self, List.map_append, List.map_singleton]
        refine ⟨_, rfl, hfiled.concat hsort ?_⟩
        rw [List.forall_mem_append, List.forall_mem_map, List.forall_mem_singleton]
        exact ⟨fun s' hs' => htimed s' (List.mem_append_left _ hs'),
          htimed s (List.mem_append_right _ List.mem_cons_self)⟩
      · have hnone : dir.acceptedFor H p [s] = [] := by
          simp [acceptedFor, hp]
        rw [hnone, List.append_nil, OrderedMap.get_set_ne _ _ hp]
        exact ⟨events, hentry, hfiled⟩

/-! ## Reading the registers -/

/-- The events up to a moment. -/
def seen (H : Host) (at_ : JsNumber) (events : List PrincipalEvent) : List PrincipalEvent :=
  events.filter fun ev => !at_.lt (dateNumber H ev.at_)

private theorem mem_seen {at_ : JsNumber} {events : List PrincipalEvent} {ev : PrincipalEvent}
    (htimed : Timed H ev) :
    ev ∈ seen H at_ events ↔ ev ∈ events ∧ at_.lt (.ofInt (eventTime H ev)) = false := by
  rw [seen, List.mem_filter, Bool.not_eq_true', htimed.dateNumber]

/-- From a principal's creation on, its state is read off its registers. -/
private theorem stateAt_registers {dir : PrincipalDirectory} {p : String} {record : PrincipalRecord}
    {events : List PrincipalEvent}
    (hget : dir.entries.get p = some { record := record, events := events })
    (hsorted : events.Pairwise fun a b => eventTime H a ≤ eventTime H b)
    (htimed : ∀ ev ∈ events, Timed H ev) {at_ : JsNumber}
    (hborn : at_.lt (dateNumber H record.createdAt) = false) :
    (dir.stateAt H p at_).known = true ∧ (dir.stateAt H p at_).record = some record ∧
      (dir.stateAt H p at_).status =
        Written.statusOf (lastWrite Register.ended.write (seen H at_ events))
          (lastWrite Register.held.write (seen H at_ events)) ∧
      ∀ keyId, (dir.stateAt H p at_).keys.get keyId =
        Written.entryOr ((OrderedMap.ofList (record.keys.map fun k => (k.keyId, k.entry))).get keyId)
          (lastWrite (Register.key keyId).write (seen H at_ events)) := by
  have hcut : (events.takeWhile fun ev => !at_.lt (dateNumber H ev.at_)) = seen H at_ events := by
    refine takeWhile_eq_filter hsorted fun a ha b hb hab hlate => ?_
    rw [(htimed a ha).dateNumber] at hlate
    rw [(htimed b hb).dateNumber]
    exact JsNumber.lt_of_lt_of_le hlate (by simpa using hab)
  simp only [stateAt, hget, hborn, Bool.false_eq_true, if_false, replayUntil_eq_foldl, hcut]
  exact ⟨trivial, trivial, status_replayed _ _, fun keyId => keys_replayed _ _ keyId⟩

/-- Two states that answer alike. -/
def SameState (a b : PrincipalState) : Prop :=
  a.known = b.known ∧ a.status = b.status ∧ a.record = b.record ∧
    ∀ keyId, a.keys.get keyId = b.keys.get keyId

/-- Whether an event is not later than the creation a record states. -/
def NotAfterCreation (H : Host) (record : PrincipalRecord) (ev : PrincipalEvent) : Prop :=
  ∃ born ∈ H.dateParse record.createdAt, eventTime H ev ≤ born

instance (record : PrincipalRecord) (ev : PrincipalEvent) :
    Decidable (NotAfterCreation H record ev) :=
  match h : H.dateParse record.createdAt with
  | none => isFalse (by rintro ⟨born, hborn, _⟩; rw [h] at hborn; cases hborn)
  | some born => decidable_of_iff (eventTime H ev ≤ born) (by
      constructor
      · intro hle
        exact ⟨born, h, hle⟩
      · rintro ⟨born', hborn, hle⟩
        rw [h] at hborn
        cases hborn
        exact hle)

/-- What is written to a register at a moment is never seen: it is overwritten before the
principal is created, or it is about holding a principal that has ended by then. -/
def Unseen (H : Host) (record : PrincipalRecord) (events : List PrincipalEvent) (t : Int)
    (r : Register) : Prop :=
  (∃ ev ∈ events, (r.write ev).isSome ∧ t < eventTime H ev ∧ NotAfterCreation H record ev) ∨
    r = .held ∧ ∃ ev ∈ events, (Register.ended.write ev).isSome ∧
      (eventTime H ev ≤ t ∨ NotAfterCreation H record ev)

instance (record : PrincipalRecord) (events : List PrincipalEvent) (t : Int) (r : Register) :
    Decidable (Unseen H record events t r) :=
  inferInstanceAs (Decidable (_ ∨ _))

/-- No two events of one moment write a register differently where it is seen. -/
def Unambiguous (H : Host) (record : PrincipalRecord) (events : List PrincipalEvent) : Prop :=
  ∀ e ∈ events, ∀ f ∈ events, eventTime H e = eventTime H f →
    ∀ v ∈ e.write?, ∀ w ∈ f.write?, v.1 = w.1 → v.2 ≠ w.2 →
      Unseen H record events (eventTime H e) v.1

instance (record : PrincipalRecord) (events : List PrincipalEvent) :
    Decidable (Unambiguous H record events) :=
  inferInstanceAs (Decidable (∀ e ∈ events, ∀ f ∈ events, _ → _))

/-- What is not after the creation is seen from the creation on. -/
private theorem seen_of_notAfterCreation {record : PrincipalRecord} {at_ : JsNumber}
    (hborn : at_.lt (dateNumber H record.createdAt) = false) {ev : PrincipalEvent}
    (h : NotAfterCreation H record ev) : at_.lt (.ofInt (eventTime H ev)) = false := by
  obtain ⟨born, hparse, hle⟩ := h
  rw [Option.mem_def] at hparse
  rw [dateNumber, hparse, JsNumber.ofParsed_some] at hborn
  by_contra hlate
  rw [Bool.not_eq_false] at hlate
  rw [JsNumber.lt_of_lt_of_le hlate (by simpa using hle)] at hborn
  cases hborn

/-- What is not later than something seen is seen. -/
private theorem seen_of_le {at_ : JsNumber} {t t' : Int} (hle : t ≤ t')
    (h : at_.lt (.ofInt t') = false) : at_.lt (.ofInt t) = false := by
  by_contra hlate
  rw [Bool.not_eq_false] at hlate
  rw [JsNumber.lt_of_lt_of_le hlate (by simpa using hle)] at h
  cases h

/-- Where the evidence is unambiguous, every register that is read holds the same value in both
directories. -/
private theorem lastWrite_seen_eq {record : PrincipalRecord} {arrived arrived' : List PrincipalEvent}
    {events events' : List PrincipalEvent} (hfiled : Filed H arrived events)
    (hfiled' : Filed H arrived' events') (hsame : ∀ ev, ev ∈ arrived ↔ ev ∈ arrived')
    (htimed : ∀ ev ∈ arrived, Timed H ev) (hclear : Unambiguous H record arrived) {at_ : JsNumber}
    (hborn : at_.lt (dateNumber H record.createdAt) = false) {r : Register}
    (hread : r = .held → lastWrite Register.ended.write (seen H at_ events) = none) :
    lastWrite r.write (seen H at_ events) = lastWrite r.write (seen H at_ events') := by
  have hmem : ∀ ev, ev ∈ seen H at_ events ↔ ev ∈ seen H at_ events' := fun ev => by
    rw [seen, seen, List.mem_filter, List.mem_filter, hfiled.mem, hfiled'.mem, hsame]
  refine lastWrite_eq_of_agree (hfiled.sorted.sublist List.filter_sublist)
    (hfiled'.sorted.sublist List.filter_sublist) hmem fun e he f hf htime hwe hwf hlatest => ?_
  obtain ⟨v, hv⟩ := Option.isSome_iff_exists.mp hwe
  obtain ⟨w, hw⟩ := Option.isSome_iff_exists.mp hwf
  rw [hv, hw, Option.some.injEq]
  by_contra hne
  have hin : ∀ ev ∈ seen H at_ events, ev ∈ arrived ∧ at_.lt (.ofInt (eventTime H ev)) = false :=
    fun ev hev => by
      have harrived := (hfiled.mem ev).mp (List.mem_filter.mp hev).1
      exact ⟨harrived, ((mem_seen (htimed ev harrived)).mp hev).2⟩
  have hinto : ∀ ev ∈ arrived, at_.lt (.ofInt (eventTime H ev)) = false →
      ev ∈ seen H at_ events := fun ev hev hnow =>
    (mem_seen (htimed ev hev)).mpr ⟨(hfiled.mem ev).mpr hev, hnow⟩
  rcases hclear e (hin e he).1 f (hin f hf).1 htime _ (Register.write_eq_some.mp hv) _
    (Register.write_eq_some.mp hw) rfl hne with ⟨g, hg, hwg, hlater, hcreation⟩ | ⟨hr, g, hg, hwg, hend⟩
  · have hseen := hinto g hg (seen_of_notAfterCreation hborn hcreation)
    have hle := hlatest g hseen hwg
    omega
  · have hseen : g ∈ seen H at_ events := by
      rcases hend with hend | hend
      · exact hinto g hg (seen_of_le hend (hin e he).2)
      · exact hinto g hg (seen_of_notAfterCreation hborn hend)
    rw [lastWrite_eq_none_iff.mp (hread hr) g hseen] at hwg
    cases hwg

/-- Two directories with the same unambiguous evidence answer alike. -/
private theorem same_of_unambiguous {dir dir' : PrincipalDirectory} {p : String}
    {record : PrincipalRecord} {arrived arrived' events events' : List PrincipalEvent}
    (hentry : dir.entries.get p = some { record := record, events := events })
    (hentry' : dir'.entries.get p = some { record := record, events := events' })
    (hfiled : Filed H arrived events) (hfiled' : Filed H arrived' events')
    (hsame : ∀ ev, ev ∈ arrived ↔ ev ∈ arrived') (htimed : ∀ ev ∈ arrived, Timed H ev)
    (hclear : Unambiguous H record arrived) (at_ : JsNumber) :
    SameState (dir.stateAt H p at_) (dir'.stateAt H p at_) := by
  cases hborn : at_.lt (dateNumber H record.createdAt) with
  | true =>
    simp only [stateAt, hentry, hentry', hborn, if_true]
    exact ⟨rfl, rfl, rfl, fun _ => rfl⟩
  | false =>
    obtain ⟨hknown, hrecord, hstatus, hkeys⟩ := stateAt_registers hentry hfiled.sorted
      (fun ev hev => htimed ev ((hfiled.mem ev).mp hev)) hborn
    obtain ⟨hknown', hrecord', hstatus', hkeys'⟩ := stateAt_registers hentry' hfiled'.sorted
      (fun ev hev => htimed ev ((hsame ev).mpr ((hfiled'.mem ev).mp hev))) hborn
    have hregister := fun r => lastWrite_seen_eq hfiled hfiled' hsame htimed hclear hborn (r := r)
    refine ⟨hknown.trans hknown'.symm, ?_, hrecord.trans hrecord'.symm, fun keyId => ?_⟩
    · rw [hstatus, hstatus', ← hregister .ended fun h => by cases h]
      cases hended : lastWrite Register.ended.write (seen H at_ events) with
      | none => rw [hregister .held fun _ => hended]
      | some v =>
        obtain ⟨ev, _, hwrite, _⟩ :=
          exists_latest_of_lastWrite (hfiled.sorted.sublist List.filter_sublist) hended
        exact statusOf_ended (Register.holds_of_write hwrite) _ _
    · rw [hkeys, hkeys', hregister (.key keyId) fun h => by cases h]

/-- Delivered once more at the end, an event decides its register among those of its moment. -/
private theorem lastWrite_seen_concat {arrived events : List PrincipalEvent} {ev : PrincipalEvent}
    (hfiled : Filed H (arrived ++ [ev]) events) (htimed : ∀ e ∈ arrived ++ [ev], Timed H e)
    {at_ : JsNumber} (hnow : at_.lt (.ofInt (eventTime H ev)) = false) {r : Register} {v : Written}
    (hwrite : r.write ev = some v)
    (hlast : ∀ e ∈ arrived, (r.write e).isSome → at_.lt (.ofInt (eventTime H e)) = false →
      eventTime H e ≤ eventTime H ev) :
    lastWrite r.write (seen H at_ events) = some v := by
  have hmem : ∀ e, e ∈ seen H at_ events ↔
      e ∈ arrived ++ [ev] ∧ at_.lt (.ofInt (eventTime H e)) = false := by
    intro e
    constructor
    · intro he
      have harrived := (hfiled.mem e).mp (List.mem_filter.mp he).1
      exact ⟨harrived, ((mem_seen (htimed e harrived)).mp he).2⟩
    · rintro ⟨harrived, hseen⟩
      exact (mem_seen (htimed e harrived)).mpr ⟨(hfiled.mem e).mpr harrived, hseen⟩
  have hself : ev ∈ seen H at_ events :=
    (hmem ev).mpr ⟨List.mem_append_right _ List.mem_cons_self, hnow⟩
  have hmoment : ((seen H at_ events).filter fun e => eventTime H e = eventTime H ev) =
      events.filter fun e => eventTime H e = eventTime H ev := by
    rw [seen, List.filter_filter]
    refine List.filter_congr fun e he => ?_
    by_cases htime : eventTime H e = eventTime H ev
    · have htimedE := htimed e ((hfiled.mem e).mp he)
      rw [htimedE.dateNumber, htime, hnow, Bool.not_false, Bool.and_true]
    · simp [htime]
  have hsorted : (seen H at_ events).Pairwise fun a b => eventTime H a ≤ eventTime H b :=
    hfiled.sorted.sublist List.filter_sublist
  rw [lastWrite_eq_filter (t := eventTime H ev) hsorted ?_
    ⟨ev, hself, rfl, by rw [hwrite]; rfl⟩, hmoment, hfiled.stable, List.filter_append,
    List.filter_cons_of_pos (by simp), List.filter_nil, lastWrite_concat, hwrite, Option.some_or]
  intro e he hlater
  obtain ⟨harrived, hseen⟩ := (hmem e).mp he
  by_contra hsome
  rcases List.mem_append.mp harrived with harrived | harrived
  · have hle := hlast e harrived (Option.isSome_iff_ne_none.mpr hsome) hseen
    omega
  · rw [List.mem_singleton.mp harrived] at hlater
    omega

/-- The first moment at which what was written at a moment can be seen. -/
private theorem exists_visible (record : PrincipalRecord) (t : Int) :
    ∃ T : Int, t ≤ T ∧ (JsNumber.ofInt T).lt (dateNumber H record.createdAt) = false ∧
      ∀ ev, eventTime H ev ≤ T → eventTime H ev ≤ t ∨ NotAfterCreation H record ev := by
  cases hborn : H.dateParse record.createdAt with
  | none =>
    refine ⟨t, le_rfl, ?_, fun ev hle => .inl hle⟩
    rw [dateNumber, hborn, JsNumber.ofParsed_none, JsNumber.lt_nan]
  | some born =>
    refine ⟨max t born, le_max_left t born, ?_, fun ev hle => ?_⟩
    · rw [dateNumber, hborn, JsNumber.ofParsed_some, JsNumber.lt_ofInt, decide_eq_false_iff_not]
      omega
    · rcases le_max_iff.mp hle with hle | hle
      · exact .inl hle
      · exact .inr ⟨born, hborn, hle⟩

private theorem acceptedFor_eq_self {dir : PrincipalDirectory} {p : String}
    {l : List (Signed PrincipalEvent)}
    (h : ∀ s ∈ l, s.body.principalId = p ∧ dir.accepts H s = true) : dir.acceptedFor H p l = l :=
  List.filter_eq_self.mpr fun s hs => by simp [h s hs]

/-- Accepted evidence with one of its events delivered once more. -/
private theorem delivered_again (hsort : StableSort H) {dir : PrincipalDirectory} {p : String}
    {record : PrincipalRecord} (hget : dir.entries.get p = some { record := record, events := [] })
    {evidence : List (Signed PrincipalEvent)}
    (haccepted : ∀ s ∈ evidence, s.body.principalId = p ∧ dir.accepts H s = true)
    (htimed : ∀ s ∈ evidence, Timed H s.body) {s : Signed PrincipalEvent} (hs : s ∈ evidence) :
    (∀ s', s' ∈ dir.acceptedFor H p (evidence ++ [s]) ↔ s' ∈ evidence) ∧
      ∃ events, (dir.delivered H (evidence ++ [s])).entries.get p =
          some { record := record, events := events } ∧
        Filed H (evidence.map Signed.body ++ [s.body]) events := by
  have hmem : ∀ s', s' ∈ evidence ++ [s] ↔ s' ∈ evidence := by
    intro s'
    rw [List.mem_append, List.mem_singleton]
    exact ⟨fun h => h.elim id fun h => h ▸ hs, .inl⟩
  have hall : dir.acceptedFor H p (evidence ++ [s]) = evidence ++ [s] :=
    acceptedFor_eq_self fun s' hs' => haccepted s' ((hmem s').mp hs')
  obtain ⟨events, hentry, hfiled⟩ := delivered_entry hsort hget (evidence ++ [s])
    fun s' hs' => htimed s' ((hmem s').mp (hall ▸ hs'))
  rw [hall, List.map_append, List.map_singleton] at hfiled
  exact ⟨fun s' => by rw [hall, hmem], events, hentry, hfiled⟩

/-- Same evidence, same answer, exactly where the evidence is unambiguous. For every directory
a principal was enrolled in and every set of events it accepts for the principal that all carry a
time: whatever is delivered, in any order, among anything else and any number of times, the states
agree at every moment if and only if no two events of one moment write differently what is seen. -/
theorem same_answer_iff (hsort : StableSort H) {dir : PrincipalDirectory} {p : String}
    {record : PrincipalRecord} (hget : dir.entries.get p = some { record := record, events := [] })
    {evidence : List (Signed PrincipalEvent)}
    (haccepted : ∀ s ∈ evidence, s.body.principalId = p ∧ dir.accepts H s = true)
    (htimed : ∀ s ∈ evidence, Timed H s.body) :
    (∀ l l', (∀ s, s ∈ dir.acceptedFor H p l ↔ s ∈ evidence) →
        (∀ s, s ∈ dir.acceptedFor H p l' ↔ s ∈ evidence) → ∀ at_,
        SameState ((dir.delivered H l).stateAt H p at_) ((dir.delivered H l').stateAt H p at_) ∧
          ∀ keyId, (dir.delivered H l).keyAt H p keyId at_ =
            (dir.delivered H l').keyAt H p keyId at_) ↔
      Unambiguous H record (evidence.map Signed.body) := by
  have htimedBodies : ∀ ev ∈ evidence.map Signed.body, Timed H ev := by
    rw [List.forall_mem_map]
    exact htimed
  constructor
  · intro hagree e he f hf htime v hv w hw hregister hne
    by_contra hvisible
    obtain ⟨r, v⟩ := v
    obtain ⟨_, w⟩ := w
    dsimp only at hregister hne hvisible
    subst hregister
    rw [Option.mem_def, ← Register.write_eq_some] at hv hw
    obtain ⟨T, htT, hborn, hcut⟩ := exists_visible (H := H) record (eventTime H e)
    obtain ⟨s, hs, rfl⟩ := List.mem_map.mp he
    obtain ⟨s', hs', rfl⟩ := List.mem_map.mp hf
    obtain ⟨hmem, events, hentry, hfiled⟩ := delivered_again hsort hget haccepted htimed hs
    obtain ⟨hmem', events', hentry', hfiled'⟩ := delivered_again hsort hget haccepted htimed hs'
    have hagain : ∀ ev ∈ evidence.map Signed.body, ∀ e ∈ evidence.map Signed.body ++ [ev],
        e ∈ evidence.map Signed.body := by
      intro ev hev e he
      rcases List.mem_append.mp he with he | he
      · exact he
      · rwa [List.mem_singleton.mp he]
    have hevents := fun e he => hagain _ (List.mem_map_of_mem hs) e ((hfiled.mem e).mp he)
    have hevents' := fun e he => hagain _ (List.mem_map_of_mem hs') e ((hfiled'.mem e).mp he)
    obtain ⟨_, _, hstatus, hkeys⟩ := stateAt_registers hentry hfiled.sorted
      (fun e he => htimedBodies e (hevents e he)) hborn
    obtain ⟨_, _, hstatus', hkeys'⟩ := stateAt_registers hentry' hfiled'.sorted
      (fun e he => htimedBodies e (hevents' e he)) hborn
    obtain ⟨⟨_, hsameStatus, _, hsameKeys⟩, _⟩ := hagree _ _ hmem hmem' (.ofInt T)
    have hlast : ∀ g ∈ evidence.map Signed.body, (r.write g).isSome →
        (JsNumber.ofInt T).lt (.ofInt (eventTime H g)) = false →
        eventTime H g ≤ eventTime H s.body := by
      intro g hg hwrite hseen
      rw [JsNumber.lt_ofInt, decide_eq_false_iff_not, not_lt] at hseen
      rcases hcut g hseen with hle | hcreation
      · exact hle
      · by_contra hlater
        exact hvisible (.inl ⟨g, hg, hwrite, not_le.mp hlater, hcreation⟩)
    have hnow : (JsNumber.ofInt T).lt (.ofInt (eventTime H s.body)) = false := by
      rw [JsNumber.lt_ofInt, decide_eq_false_iff_not]
      omega
    have hwritten := lastWrite_seen_concat hfiled
      (fun e he => htimedBodies e (hagain _ (List.mem_map_of_mem hs) e he)) hnow hv hlast
    have hwritten' := lastWrite_seen_concat hfiled'
      (fun e he => htimedBodies e (hagain _ (List.mem_map_of_mem hs') e he)) (htime ▸ hnow) hw
      (htime ▸ hlast)
    have hunended : r = .held → ∀ fs, (∀ g ∈ fs, g ∈ evidence.map Signed.body) →
        lastWrite Register.ended.write (seen H (.ofInt T) fs) = none := by
      intro hr fs hfs
      rw [lastWrite_eq_none_iff]
      intro g hg
      have hin := hfs g (List.mem_filter.mp hg).1
      have hseen := ((mem_seen (htimedBodies g hin)).mp hg).2
      rw [JsNumber.lt_ofInt, decide_eq_false_iff_not, not_lt] at hseen
      by_contra hwrite
      exact hvisible (.inr ⟨hr, g, hin, Option.isSome_iff_ne_none.mpr hwrite, hcut g hseen⟩)
    refine hne (eq_of_read (fun r => lastWrite r.write (seen H (.ofInt T) events))
      (fun r => lastWrite r.write (seen H (.ofInt T) events')) (r := r) ?_ ?_ ?_
      (Register.holds_of_write hv) (Register.holds_of_write hw) hwritten hwritten')
    · rw [← hstatus, ← hstatus', hsameStatus]
    · intro keyId
      exact ⟨_, by rw [← hkeys, ← hkeys', hsameKeys]⟩
    · exact fun hr => ⟨hunended hr events hevents, hunended hr events' hevents'⟩
  · intro hclear l l' hl hl' at_
    suffices h : SameState ((dir.delivered H l).stateAt H p at_)
        ((dir.delivered H l').stateAt H p at_) from ⟨h, h.2.2.2⟩
    obtain ⟨events, hentry, hfiled⟩ :=
      delivered_entry hsort hget l fun s hs => htimed s ((hl s).mp hs)
    obtain ⟨events', hentry', hfiled'⟩ :=
      delivered_entry hsort hget l' fun s hs => htimed s ((hl' s).mp hs)
    have hbodies : ∀ m, (∀ s, s ∈ dir.acceptedFor H p m ↔ s ∈ evidence) → ∀ ev,
        ev ∈ (dir.acceptedFor H p m).map Signed.body ↔ ev ∈ evidence.map Signed.body := by
      intro m hm ev
      simp only [List.mem_map, hm]
    refine same_of_unambiguous hentry hentry' hfiled hfiled'
      (fun ev => (hbodies l hl ev).trans (hbodies l' hl' ev).symm)
      (fun ev hev => htimedBodies ev ((hbodies l hl ev).mp hev)) ?_ at_
    intro e he f hf htime v hv w hw hregister hne
    have hunseen := hclear e ((hbodies l hl e).mp he) f ((hbodies l hl f).mp hf) htime v hv w hw
      hregister hne
    simpa only [Unseen, hbodies l hl] using hunseen

/-! ## Runs on the reference host -/

open Reference DirectoryHistory

/-- A lifecycle event of the agent, under its own id. -/
def agentEventAs (eventId : String) (kind : PrincipalEventKind) (at_ : String) :
    Signed PrincipalEvent :=
  signed "cool.principal-event.v1" { eventId, principalId := "agent-1", kind, at_ } issuerKey

/-- The agent is suspended a minute after its creation. -/
def suspension : Signed PrincipalEvent :=
  agentEventAs "event-2" .suspended "2026-01-01T00:01:00.000Z"

/-- The agent is reinstated in the same millisecond. -/
def reinstatement : Signed PrincipalEvent :=
  agentEventAs "event-3" .reinstated "2026-01-01T00:01:00.000Z"

/-- The agent is revoked ten seconds before. -/
def earlierRevocation : Signed PrincipalEvent :=
  agentEventAs "event-4" .revoked "2026-01-01T00:00:50.000Z"

/-- The directory the agent was just enrolled in. -/
def enrolled : PrincipalDirectory := (agentHistory []).directory

private theorem enrolled_agent :
    enrolled.entries.get "agent-1" = some { record := agentRecord, events := [] } := by
  decide +kernel

/-- Two events of one moment: each order of delivery, and a second delivery of the suspension,
leave a different answer. -/
theorem order_decides :
    enrolled.entries.get "agent-1" = some { record := agentRecord, events := [] } ∧
      (∀ s ∈ [suspension, reinstatement], enrolled.accepts host s = true) ∧
      ((enrolled.delivered host [suspension, reinstatement]).stateAt host "agent-1"
        (clock 120000)).status = .active ∧
      ((enrolled.delivered host [reinstatement, suspension]).stateAt host "agent-1"
        (clock 120000)).status = .suspended ∧
      ((enrolled.delivered host [suspension, reinstatement, suspension]).stateAt host "agent-1"
        (clock 120000)).status = .suspended := by
  refine ⟨enrolled_agent, ?_⟩
  decide +kernel

private theorem mem_redelivered {α : Type} (a b c s : α) : s ∈ [c, b, a, a] ↔ s ∈ [a, b, c] := by
  simp only [List.mem_cons, List.not_mem_nil, or_false]
  tauto

/-- The general result at work: held or not, a principal revoked before stays revoked, so the same
two events leave no doubt. -/
theorem same_answer_revoked :
    SameState
      ((enrolled.delivered host [suspension, reinstatement, earlierRevocation]).stateAt host
        "agent-1" (clock 120000))
      ((enrolled.delivered host [earlierRevocation, reinstatement, suspension, suspension]).stateAt
        host "agent-1" (clock 120000)) := by
  have haccepted : ∀ s ∈ [suspension, reinstatement, earlierRevocation],
      s.body.principalId = "agent-1" ∧ enrolled.accepts host s = true := by
    decide +kernel
  have hclear : Unambiguous host agentRecord
      ([suspension, reinstatement, earlierRevocation].map Signed.body) := by
    decide +kernel
  have htimed : ∀ s ∈ [suspension, reinstatement, earlierRevocation], Timed host s.body := by
    decide +kernel
  have hmem := mem_redelivered suspension reinstatement earlierRevocation
  refine ((same_answer_iff stableSort enrolled_agent haccepted htimed).mpr hclear _ _ ?_ ?_ _).1
  · intro s
    rw [acceptedFor_eq_self haccepted]
  · intro s
    rw [acceptedFor_eq_self fun s' hs' => haccepted s' ((hmem s').mp hs'), hmem]

end PrincipalDirectory

end CoolSdk
