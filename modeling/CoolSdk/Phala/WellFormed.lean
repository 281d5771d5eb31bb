import CoolSdk.Phala.Verify

/-!
# Well-formed receipts can be read

Whatever passes a structural check has the members the verifier reads of it. One lemma a check.
-/

namespace CoolSdk

open JsValue (Members member)

namespace Checker

theorem of_obj {path : String} {v : JsValue} {check : Members → List String}
    (h : obj path v check = []) : ∃ ms, v = .object ms ∧ check ms = [] := by
  unfold obj at h
  split at h
  · exact ⟨_, rfl, h⟩
  · cases h

theorem of_str {path : String} {v : JsValue} {pattern : Option Pattern}
    (h : str path v pattern = []) :
    ∃ s, v = .str s ∧ s ≠ "" ∧ ∀ p, pattern = some p → p.test s = true := by
  unfold str at h
  split at h
  · rename_i s
    split at h
    · cases h
    · rename_i hne
      refine ⟨s, rfl, hne, ?_⟩
      rintro p rfl
      by_contra htest
      simp only [if_neg htest] at h
      cases h
  · cases h

theorem text_of_str {path : String} {v : JsValue} {pattern : Option Pattern}
    (h : str path v pattern = []) : ∃ s, v.text = .ok s := by
  obtain ⟨s, rfl, _⟩ := of_str h
  exact ⟨s, rfl⟩

theorem text_of_oneOf {path : String} {v : JsValue} {allowed : List String}
    (h : oneOf path v allowed = []) : ∃ s, v.text = .ok s := by
  unfold oneOf at h
  split at h
  · exact ⟨_, rfl⟩
  · cases h

theorem natural_of_int {path : String} {v : JsValue} {min : Nat} (h : int path v min = []) :
    ∃ n, v.natural = .ok n := by
  unfold int at h
  split at h
  · rename_i n
    by_cases hn : (n.isInteger && !n.lt (.ofInt min)) = true
    · rw [Bool.and_eq_true, Bool.not_eq_true'] at hn
      obtain ⟨hinteger, hlt⟩ := hn
      cases n with
      | nan | negInfinity | infinity => cases hinteger
      | negZero => exact ⟨0, rfl⟩
      | finite q =>
        have hden : q.den = 1 := of_decide_eq_true hinteger
        have hmin : (min : ℚ) ≤ q := by
          simpa [JsNumber.lt, JsNumber.ofInt, JsNumber.position?] using hlt
        have hnum : 0 ≤ q.num := Rat.num_nonneg.mpr ((Nat.cast_nonneg min).trans hmin)
        exact ⟨q.num.toNat, if_pos ⟨hden, hnum⟩⟩
    · rw [if_neg hn] at h
      cases h
  · cases h

theorem items_of_arr {path : String} {v : JsValue} {check : List JsValue → List String}
    (h : arr path v check = []) : ∃ xs, v.items = .ok xs ∧ check xs = [] := by
  unfold arr at h
  split at h
  · exact ⟨_, rfl, h⟩
  · cases h

/-- A checked member that may be null is read as one that may be null. -/
theorem orNull_of_unlessNull {α : Type} {v : JsValue} {check : List String}
    {f : JsValue → Except String α} (h : unlessNull v check = [])
    (hread : check = [] → ∃ a, f v = .ok a) : ∃ a, JsValue.orNull f v = .ok a := by
  unfold unlessNull at h
  unfold JsValue.orNull
  by_cases hnullish : v.nullish = true
  · exact ⟨none, if_pos hnullish⟩
  · rw [if_neg hnullish]
    have hnull : ¬v.strictEquals .null = true := by
      intro heq
      cases v <;> first | exact hnullish rfl | cases heq
    rw [if_neg hnull] at h
    obtain ⟨a, ha⟩ := hread h
    exact ⟨some a, by rw [ha]; rfl⟩

end Checker

open Checker

/-- A member that may be null is null, or read. -/
theorem orNull_cases {α : Type} {f : JsValue → Except String α} {v : JsValue}
    {a : Option α} (h : JsValue.orNull f v = .ok a) :
    v.nullish = true ∧ a = none ∨ ∃ x, f v = .ok x ∧ a = some x := by
  unfold JsValue.orNull at h
  split at h
  · rename_i hnullish
    cases h
    exact .inl ⟨hnullish, rfl⟩
  · cases hx : f v with
    | error e =>
      rw [hx] at h
      cases h
    | ok x =>
      rw [hx] at h
      cases h
      exact .inr ⟨x, rfl, rfl⟩

/-- A member of an object is read. -/
theorem exists_read {α β : Type} {ms : Members} {name : String} {f : JsValue → Except String α}
    {g : α → Except String β} (hread : ∃ a, f (member ms name) = .ok a)
    (hrest : ∀ a, f (member ms name) = .ok a → ∃ b, g a = .ok b) :
    ∃ b, ((JsValue.object ms).read name >>= f) >>= g = .ok b :=
  exists_bind hread hrest

theorem readSignature_of_checked {path : String} {v : JsValue} (h : Checker.signature path v = []) :
    ∃ s, readSignature v = .ok s := by
  obtain ⟨ms, rfl, hms⟩ := of_obj h
  simp only [List.append_eq_nil_iff] at hms
  obtain ⟨⟨⟨halg, hkeyId⟩, hmlDsa⟩, hed25519⟩ := hms
  have hexact : ∃ s, (member ms "alg").text = .ok s := by
    unfold exactly at halg
    split at halg
    · rename_i heq
      cases hv : member ms "alg" with
      | str s => exact ⟨s, rfl⟩
      | _ =>
        rw [hv] at heq
        cases heq
    · cases halg
  refine exists_read hexact fun _ _ => exists_read (text_of_str hkeyId) fun _ _ => ?_
  exact exists_read (text_of_str hmlDsa) fun _ _ => exists_read (text_of_str hed25519) fun _ _ =>
    ⟨_, rfl⟩

theorem readMeasurement_of_checked {path : String} {v : JsValue}
    (h : Checker.measurement path v = []) : ∃ m, readMeasurement v = .ok m := by
  obtain ⟨ms, rfl, hms⟩ := of_obj h
  simp only [List.flatMap_eq_nil_iff, List.forall_mem_cons] at hms
  obtain ⟨hmrtd, hrtmr0, hrtmr1, hrtmr2, hrtmr3, _⟩ := hms
  refine exists_read (text_of_str hmrtd) fun _ _ => exists_read (text_of_str hrtmr0) fun _ _ => ?_
  refine exists_read (text_of_str hrtmr1) fun _ _ => exists_read (text_of_str hrtmr2) fun _ _ => ?_
  exact exists_read (text_of_str hrtmr3) fun _ _ => ⟨_, rfl⟩

private theorem readLabel_of_checked {ms : Members}
    (h : (if (member ms "schema").strictEquals (.str "cool.evidence.v1") then
        event (member ms "event")
      else if (member ms "schema").strictEquals (.str "cool.change.v2") then
        change (member ms "change")
      else ["record.schema: expected 'cool.evidence.v1' or 'cool.change.v2'"]) = []) :
    ∃ label, readLabel (.object ms) = .ok label := by
  refine exists_bind ⟨_, rfl⟩ ?_
  rintro _ ⟨⟩
  split at h
  · rename_i hevidence
    rw [if_pos hevidence]
    unfold event at h
    obtain ⟨ev, hev, h⟩ := of_obj h
    simp only [List.append_eq_nil_iff] at h
    obtain ⟨⟨⟨⟨⟨⟨htype, happlication⟩, _⟩, _⟩, _⟩, _⟩, _⟩ := h
    refine exists_bind ⟨_, rfl⟩ ?_
    rintro _ ⟨⟩
    rw [hev]
    exact exists_read (text_of_str htype) fun _ _ => exists_read (text_of_str happlication)
      fun _ _ => ⟨_, rfl⟩
  · rename_i hevidence
    rw [if_neg hevidence]
    split at h
    · unfold change at h
      obtain ⟨ch, hch, h⟩ := of_obj h
      simp only [List.append_eq_nil_iff] at h
      obtain ⟨⟨⟨⟨⟨⟨⟨hkind, href⟩, _⟩, _⟩, _⟩, _⟩, _⟩, _⟩ := h
      refine exists_bind ⟨_, rfl⟩ ?_
      rintro _ ⟨⟩
      rw [hch]
      exact exists_read (text_of_oneOf hkind) fun _ _ => exists_read (text_of_str href)
        fun _ _ => ⟨_, rfl⟩
    · cases h

theorem readRecord_of_checked {v : JsValue} (h : record v = []) :
    ∃ r, readRecord v = .ok r := by
  obtain ⟨ms, rfl, hms⟩ := of_obj h
  simp only [List.append_eq_nil_iff] at hms
  obtain ⟨⟨⟨⟨hid, hsignature⟩, hruntime⟩, htime⟩, hlabel⟩ := hms
  unfold runtime at hruntime
  obtain ⟨rt, hrt, hruntime⟩ := of_obj hruntime
  obtain ⟨tm, htm, htime⟩ := of_obj htime
  simp only [List.append_eq_nil_iff] at hruntime htime
  obtain ⟨⟨⟨⟨⟨hvendor, hmode⟩, hmeasurement⟩, hquote⟩, _⟩, _⟩ := hruntime
  refine exists_bind ⟨ms, rfl⟩ fun _ _ => exists_bind ⟨_, rfl⟩ fun _ _ => ?_
  refine exists_bind (readLabel_of_checked hlabel) fun _ _ => exists_bind ⟨_, rfl⟩ ?_
  rintro _ ⟨⟩
  rw [htm]
  refine exists_read (text_of_str htime.1) fun _ _ => exists_read (text_of_str hid) fun _ _ => ?_
  refine exists_read (readSignature_of_checked hsignature) fun _ _ => exists_bind ⟨_, rfl⟩ ?_
  rintro _ ⟨⟩
  rw [hrt]
  refine exists_read (text_of_oneOf hvendor) fun _ _ => exists_read (text_of_oneOf hmode)
    fun _ _ => ?_
  refine exists_read (orNull_of_unlessNull hmeasurement readMeasurement_of_checked) fun _ _ => ?_
  exact exists_read (orNull_of_unlessNull hquote text_of_str) fun _ _ => ⟨_, rfl⟩

theorem readInclusion_of_checked {v : JsValue} (h : inclusion v = []) :
    ∃ i, readInclusion v = .ok i := by
  obtain ⟨ms, rfl, hms⟩ := of_obj h
  simp only [List.append_eq_nil_iff] at hms
  obtain ⟨⟨hindex, hsize⟩, hpath⟩ := hms
  obtain ⟨hashes, hitems, hpath⟩ := items_of_arr hpath
  refine exists_read (natural_of_int hindex) fun _ _ => exists_read (natural_of_int hsize)
    fun _ _ => exists_read ⟨hashes, hitems⟩ fun hashes' hread => ?_
  obtain rfl := Except.ok.inj (hitems.symm.trans hread)
  refine exists_bind (exists_mapM fun hash hmem => ?_) fun _ _ => ⟨_, rfl⟩
  rw [List.flatMap_eq_nil_iff] at hpath
  obtain ⟨i, hi, rfl⟩ := List.getElem_of_mem hmem
  exact text_of_str (hpath (hashes[i], i) (List.mk_mem_zipIdx_iff_getElem?.mpr (by simp [hi])))

theorem readHead_of_checked {v : JsValue} (h : sth v = []) : ∃ s, readHead v = .ok s := by
  obtain ⟨ms, rfl, hms⟩ := of_obj h
  simp only [List.append_eq_nil_iff] at hms
  obtain ⟨⟨⟨⟨⟨hlog, hsize⟩, hroot⟩, htimestamp⟩, hsignature⟩, hwitnesses⟩ := hms
  obtain ⟨ws, hws, _⟩ := items_of_arr hwitnesses
  refine exists_read (text_of_str hlog) fun _ _ => exists_read (natural_of_int hsize) fun _ _ => ?_
  refine exists_read (text_of_str hroot) fun _ _ => exists_read (text_of_str htimestamp)
    fun _ _ => ?_
  exact exists_read (readSignature_of_checked hsignature) fun _ _ => exists_read ⟨ws, hws⟩
    fun _ _ => ⟨_, rfl⟩

theorem readQuote_of_checked {v : JsValue} (h : quote v = []) : ∃ q, readQuote v = .ok q := by
  obtain ⟨ms, rfl, hms⟩ := of_obj h
  simp only [List.append_eq_nil_iff] at hms
  obtain ⟨⟨⟨⟨_, hroot⟩, hsignature⟩, hraw⟩, hbody⟩ := hms
  unfold quoteBody at hbody
  obtain ⟨bd, hbd, hbody⟩ := of_obj hbody
  simp only [List.append_eq_nil_iff] at hbody
  obtain ⟨⟨⟨⟨⟨⟨_, hmeasurement⟩, hreport⟩, _⟩, _⟩, _⟩, _⟩ := hbody
  have hregisters := hmeasurement
  unfold Checker.measurement at hregisters
  obtain ⟨rs, hrs, _⟩ := of_obj hregisters
  refine exists_read (text_of_oneOf hroot) fun _ _ => exists_bind ⟨_, rfl⟩ ?_
  rintro _ ⟨⟩
  rw [hbd]
  refine exists_read ⟨rs, by rw [hrs]; rfl⟩ fun rs' hread => ?_
  rw [hrs] at hread hmeasurement
  obtain rfl := Except.ok.inj hread
  refine exists_bind (readMeasurement_of_checked hmeasurement) fun _ _ => ?_
  refine exists_read (text_of_str hreport) fun _ _ => ?_
  refine exists_read (orNull_of_unlessNull hsignature readSignature_of_checked) fun _ _ => ?_
  exact exists_read (orNull_of_unlessNull hraw text_of_str) fun _ _ => ⟨_, rfl⟩

theorem readAnchor_of_checked {v : JsValue} (h : anchor v = []) :
    ∃ a, JsValue.orNull readAnchor v = .ok a := by
  unfold anchor at h
  unfold JsValue.orNull
  by_cases hnullish : v.nullish = true
  · exact ⟨none, if_pos hnullish⟩
  · rw [if_neg hnullish] at h ⊢
    obtain ⟨ms, rfl, hms⟩ := of_obj h
    simp only [List.append_eq_nil_iff] at hms
    obtain ⟨⟨⟨⟨⟨⟨⟨_, _⟩, htarget⟩, hsize⟩, hproof⟩, _⟩, _⟩, _⟩ := hms
    have hread : ∃ a, readAnchor (.object ms) = .ok a :=
      exists_read (text_of_str htarget) fun _ _ => exists_read (natural_of_int hsize) fun _ _ =>
        exists_read (text_of_str hproof) fun _ _ => ⟨_, rfl⟩
    obtain ⟨a, ha⟩ := hread
    exact ⟨some a, by rw [ha]; rfl⟩

theorem readDirectory_of_checked {v : JsValue} (h : keyDirectory v = []) :
    ∃ d, readDirectory v = .ok d := by
  obtain ⟨ms, rfl, hms⟩ := of_obj h
  rw [List.append_eq_nil_iff, List.flatMap_eq_nil_iff] at hms
  refine exists_bind ⟨ms, rfl⟩ ?_
  rintro _ ⟨⟩
  refine exists_mapM fun e he => ?_
  obtain ⟨entry, hentry, hkeys⟩ := of_obj (hms.2 e he)
  rw [List.append_eq_nil_iff] at hkeys
  refine exists_bind ?_ fun _ _ => ⟨_, rfl⟩
  rw [hentry]
  exact exists_read (text_of_str hkeys.1) fun _ _ => exists_read (text_of_str hkeys.2)
    fun _ _ => ⟨_, rfl⟩

/-- A receipt without structural errors can be read. -/
theorem readReceipt_of_valid {receipt : JsValue} (h : validateReceiptV2Shape receipt = []) :
    ∃ r, readReceipt receipt = .ok r := by
  obtain ⟨ms, rfl, hms⟩ := of_obj h
  simp only [List.append_eq_nil_iff] at hms
  obtain ⟨⟨⟨⟨⟨⟨⟨⟨_, hanchor⟩, hbinding⟩, hrecord⟩, _⟩, hinclusion⟩, hsth⟩, hattestation⟩,
    hdirectory⟩ := hms
  unfold attestation at hattestation
  obtain ⟨at_, hat, hattestation⟩ := of_obj hattestation
  simp only [List.append_eq_nil_iff] at hattestation
  obtain ⟨⟨⟨⟨_, _⟩, _⟩, hexpected⟩, hquote⟩ := hattestation
  refine exists_read (readRecord_of_checked hrecord) fun _ _ => ?_
  refine exists_read (text_of_str hbinding) fun _ _ => ?_
  refine exists_read (orNull_of_unlessNull hinclusion readInclusion_of_checked) fun _ _ => ?_
  refine exists_read (orNull_of_unlessNull hsth readHead_of_checked) fun _ _ => ?_
  refine exists_bind ⟨_, rfl⟩ ?_
  rintro _ ⟨⟩
  rw [hat]
  refine exists_read (orNull_of_unlessNull hexpected readMeasurement_of_checked) fun _ _ => ?_
  refine exists_read (orNull_of_unlessNull hquote readQuote_of_checked) fun _ _ => ?_
  refine exists_read (readAnchor_of_checked hanchor) fun _ _ => ?_
  exact exists_read (readDirectory_of_checked hdirectory) fun _ _ => ⟨_, rfl⟩

end CoolSdk
