/-
# CocoHarness.Schedule.CrashSafety — every block of the package keeps what the log owes.

A block folds the log as it is, so the changes it appends are changes the fold accepts
(`Acceptable`): a created record is valid under an id never used, a deleted one is active, and the
dispatches of a claim are of the records whose reminders its message carries.  From the blocks the
steps of the system follow, and from these every run, restarts after a crash included.
-/
import CocoHarness.Schedule.Delivery
import CocoHarness.Schedule.FixedRate

namespace CocoHarness.Schedule

open Lib Lib.SafeInteger SessionLog Agent List Json ScheduleChange Numeral EveryScheduleRecord

variable {seedLength : Nat} {log : List SessionEvent} {inbox inbox' : Inbox}

/-! ## Appending changes -/

/-- The fold takes the changes, and the log has the reminders of the dispatches. -/
inductive Acceptable (seedLength : Nat) (log : List SessionEvent) : FoldState → List ScheduleChange → Prop
  | nil (s : FoldState) : Acceptable seedLength log s []
  | cons {s s' : FoldState} {change : ScheduleChange} {rest : List ScheduleChange} : change.Valid →
      foldChange s change = .ok s' →
      (∀ id acceptedAt record, change = .dispatch id acceptedAt → s.active.lookup id = some record →
        Reminded seedLength log acceptedAt record) →
      Acceptable seedLength log s' rest → Acceptable seedLength log s (change :: rest)

variable {r : ScheduleRecord}

theorem Reminded.snoc {acceptedAt : Option String}
    (h : Reminded seedLength log acceptedAt r) (hseed : seedLength ≤ log.length) (e : SessionEvent) :
    Reminded seedLength (log ++ [e]) acceptedAt r := by
  cases r with
  | oneShot r =>
    obtain ⟨d, hmem, hcarries⟩ := h
    exact ⟨d, mem_drop_snoc hseed e hmem, hcarries⟩
  | every r =>
    intro target text accepted htarget htext hparse
    obtain ⟨d, hmem, hcarries⟩ := h target text accepted htarget htext hparse
    exact ⟨d, mem_drop_snoc hseed e hmem, hcarries⟩

variable {s : FoldState} {changes : List ScheduleChange}

theorem Acceptable.snoc (h : Acceptable seedLength log s changes) (hseed : seedLength ≤ log.length)
    (e : SessionEvent) : Acceptable seedLength (log ++ [e]) s changes := by
  induction h with
  | nil s => exact .nil s
  | cons hvalid hchange hreminded _ ih =>
    exact .cons hvalid hchange
      (fun id acceptedAt record hdispatch hactive =>
        (hreminded id acceptedAt record hdispatch hactive).snoc hseed e) ih

theorem toJson_wf (change : ScheduleChange) : change.toJson.WF := by
  have hrecord : ∀ r : ScheduleRecord, r.toJson.WF := by
    rintro ((r | r) | r) <;> simp [ScheduleRecord.toJson, wf_obj, Json.keys, WF]
  cases change with
  | create schedule => simp [toJson, wf_obj, Json.keys, WF, hrecord]
  | delete id => simp [toJson, wf_obj, Json.keys, WF]
  | dispatch id acceptedAt =>
    cases acceptedAt <;> simp [toJson, wf_obj, Json.keys, WF]

/-- What a block does to the session: it stays reachable, and its log grows as it may. -/
def GrowsTo (seedLength : Nat) (inbox inbox' : Inbox) : Prop :=
  inbox'.session.Reachable ∧ Grows seedLength (eventsOf inbox.session.log) (eventsOf inbox'.session.log)

theorem GrowsTo.refl (hs : inbox.session.Reachable) : GrowsTo seedLength inbox inbox := ⟨hs, .refl _⟩

theorem GrowsTo.trans {mid : Inbox} (h : GrowsTo seedLength inbox mid)
    (h' : GrowsTo seedLength mid inbox') : GrowsTo seedLength inbox inbox' := ⟨h'.1, h.2.trans h'.2⟩

theorem GrowsForeign.growsTo (h : GrowsForeign inbox inbox') : GrowsTo seedLength inbox inbox' := by
  obtain ⟨hs, es, hes, hlog⟩ := h
  exact ⟨hs, hlog ▸ .append_foreign hes⟩

variable {result : ClaimResult}

/-- **Appending acceptable changes** grows the log as it may, however far it gets. -/
theorem appendChanges_growsTo {appends : Nat → Publication} {k : Nat} (hs : inbox.session.Reachable)
    (hseed : seedLength ≤ (eventsOf inbox.session.log).length)
    (hfold : foldSuffix (eventsOf inbox.session.log) seedLength = .ok s)
    (hchanges : Acceptable seedLength (eventsOf inbox.session.log) s changes)
    (h : appendChanges inbox appends k changes = (inbox', result)) :
    GrowsTo seedLength inbox inbox' := by
  induction changes generalizing inbox k s with
  | nil =>
    cases h
    exact .refl hs
  | cons change rest ih =>
    rw [appendChanges] at h
    split at h
    · next session e happend =>
      cases h
      refine ⟨reachable_of_append hs happend, ?_⟩
      rw [hs.append_error happend]
      exact .refl _
    · next session event happend =>
      obtain ⟨hlog, htype, hdata⟩ := hs.append_ok happend
      rw [snapshotJsonValue_ofJson (toJson_wf change)] at hdata
      cases hchanges with
      | @cons _ s' _ _ hvalid hchange hreminded hrest =>
        have hdecode : decodeScheduleChange event.event.data = .ok change := by
          rw [← Option.some.inj hdata]
          exact decodeScheduleChange_toJson hvalid
        have hmid : GrowsTo seedLength inbox { inbox with session } := by
          refine ⟨reachable_of_append hs happend, ?_⟩
          show Grows seedLength _ (eventsOf session.log)
          rw [hlog]
          exact (Grows.refl _).change htype hdecode hfold hchange hreminded
        have hfold' : foldSuffix (eventsOf session.log) seedLength = .ok s' := by
          rw [hlog, foldSuffix_snoc hseed, hfold, ok_bind, foldEvent, if_neg (not_not.mpr htype), hdecode]
          exact hchange
        have hseed' : seedLength ≤ (eventsOf session.log).length := by
          rw [hlog, length_append]
          omega
        have hrest' : Acceptable seedLength (eventsOf session.log) s' rest := by
          rw [hlog]
          exact hrest.snoc hseed event.event
        exact hmid.trans (ih hmid.1 hseed' hfold' hrest' h)

/-! ## Creating -/

theorem trimmed_trim {s : String} (h : trim s ≠ "") : Trimmed (trim s) := ⟨h, trim_trim s⟩

variable {α : Type}

theorem inputSome_ok_iff {value : Option α} {code : ScheduleInputCode} {message : String}
    {a : α} : inputSome value code message = .ok a ↔ value = some a := by
  cases value <;> simp [inputSome]

variable {prompt : String}

theorem normalizePrompt_ok {prompt' : String} (h : normalizePrompt prompt = .ok prompt') : Trimmed prompt' := by
  unfold normalizePrompt at h
  split at h
  · cases h
  · next hne =>
    cases h
    exact trimmed_trim hne

variable {now : Int} {text : String}

theorem futureInstant_ok {epoch : Int} (h : futureInstant epoch now = .ok text) :
    InRange epoch ∧ text = toISOString epoch := by
  unfold futureInstant at h
  split at h
  · cases h
  · next hrange =>
    simp only [not_or, not_not, not_lt] at hrange
    split at h
    · cases h
    · split at h
      · cases h
      · exact ⟨⟨hrange.2.2.1, hrange.2.2.2⟩, (Except.ok.inj h).symm⟩

variable {id : String} {selector : Selector}

/-- **A created record is valid.** -/
theorem createRecord_valid (hid : Trimmed id) {now : TimeValue}
    {record : ScheduleRecord} (h : createRecord id prompt now.ms selector = .ok record) :
    record.Valid ∧ record.id = id := by
  cases selector with
  | after seconds =>
    obtain ⟨r, hr, hrecord⟩ := bind_eq_ok_iff.mp h
    cases hrecord
    simp only [createAfterScheduleRecord, bind_eq_ok_iff, inputSome_ok_iff] at hr
    obtain ⟨prompt', hprompt, n, hn, text, htext, hr⟩ := hr
    cases hr
    rw [Option.filter_eq_some_iff, SessionEvent.safeInt?_eq_some_iff, decide_eq_true_eq] at hn
    obtain ⟨hrange, rfl⟩ := futureInstant_ok htext
    exact ⟨⟨hid, normalizePrompt_ok hprompt, ⟨_, hrange, rfl⟩, hn.1.2, hn.2⟩, rfl⟩
  | «at» target =>
    obtain ⟨r, hr, hrecord⟩ := bind_eq_ok_iff.mp h
    cases hrecord
    simp only [createAtScheduleRecord, bind_eq_ok_iff] at hr
    obtain ⟨prompt', hprompt, target', -, text, htext, hr⟩ := hr
    cases hr
    obtain ⟨hrange, rfl⟩ := futureInstant_ok htext
    exact ⟨⟨hid, normalizePrompt_ok hprompt, ⟨_, hrange, rfl⟩, trivial⟩, rfl⟩
  | every seconds =>
    obtain ⟨r, hr, hrecord⟩ := bind_eq_ok_iff.mp h
    cases hrecord
    simp only [createEveryScheduleRecord, bind_eq_ok_iff, inputSome_ok_iff] at hr
    obtain ⟨prompt', hprompt, n, hn, n', hn', text, htext, hr⟩ := hr
    cases hr
    rw [Option.filter_some] at hn'
    split at hn'
    · next hleast =>
      cases hn'
      obtain ⟨hrange, rfl⟩ := futureInstant_ok htext
      have hsafe : IsSafe n := (SessionEvent.safeInt?_eq_some_iff.mp hn).2
      -- the target is the exact sum, and the clock is far from the end of the safe range
      have hsum : fadd now.ms (fmul n 1000) = now.ms + fmul n 1000 :=
        fadd_of_isSafe ((isSafe_fadd_iff _ _).mp hrange.isSafe)
      have hclock := now.bound
      have hinterval : IsSafe (n * 1000) := by
        rw [← isSafe_fmul_iff]
        have hin := hrange
        rw [hsum] at hin
        simp only [InRange, minFourDigitYearMs, maxFourDigitYearMs] at hin
        simp only [IsSafe]
        omega
      exact ⟨⟨hid, normalizePrompt_ok hprompt, ⟨_, hrange, rfl⟩, hsafe, of_decide_eq_true hleast, hinterval⟩, rfl⟩
    · cases hn'

theorem trimmed_of_solid {s : String} (hne : s ≠ "") (h : ∀ c ∈ s.toList, isSpace c = false) : Trimmed s := by
  refine ⟨hne, ?_⟩
  have hfront : s.toList.dropWhile isSpace = s.toList := by
    rw [dropWhile_eq_self_iff]
    intro hlength hspace
    rw [h _ (getElem_mem hlength)] at hspace
    cases hspace
  have hback : s.toList.reverse.dropWhile isSpace = s.toList.reverse := by
    rw [dropWhile_eq_self_iff]
    intro hlength hspace
    rw [h _ (mem_reverse.mp (getElem_mem hlength))] at hspace
    cases hspace
  rw [trim, hfront, hback, reverse_reverse, String.ofList_toList]

theorem isSpace_of_isDigit {c : Char} (h : isDigit c = true) : isSpace c = false := by
  rw [isDigit, decide_eq_true_eq] at h
  rw [isSpace, decide_eq_false_iff_not]
  omega

theorem toList_scheduleId (n : Nat) : (scheduleId n).toList = "schedule-".toList ++ natText n := by
  rw [scheduleId, String.toList_append]
  exact congrArg _ String.toList_ofList

theorem scheduleId_trimmed (n : Nat) : Trimmed (scheduleId n) := by
  have hword : ∀ c ∈ "schedule-".toList, isSpace c = false := by simp [isSpace]
  refine trimmed_of_solid ?_ ?_
  · intro hempty
    have := congrArg String.toList hempty
    rw [toList_scheduleId] at this
    simp at this
  · intro c hc
    rw [toList_scheduleId] at hc
    rcases mem_append.mp hc with hc | hc
    · exact hword c hc
    · exact isSpace_of_isDigit (natText_isDigit n c hc)

theorem scheduleId_injective {m n : Nat} (h : scheduleId m = scheduleId n) : m = n := by
  have hlist := congrArg String.toList h
  rw [toList_scheduleId, toList_scheduleId] at hlist
  have htext := congrArg digitsVal (append_cancel_left hlist)
  rwa [digitsVal_natText, digitsVal_natText] at htext

theorem allocateFrom_eq (seen : List String) (fuel sequence : Nat) :
    ∃ k ≤ fuel, allocateFrom seen fuel sequence = scheduleId (sequence + k)
      ∧ (∀ j < k, scheduleId (sequence + j) ∈ seen)
      ∧ (k < fuel → allocateFrom seen fuel sequence ∉ seen) := by
  induction fuel generalizing sequence with
  | zero => exact ⟨0, le_refl 0, rfl, fun j hj => absurd hj (Nat.not_lt_zero j), fun h => absurd h (Nat.lt_irrefl 0)⟩
  | succ fuel ih =>
    rw [allocateFrom]
    split
    · next hused =>
      obtain ⟨k, hk, heq, hall, hfree⟩ := ih (sequence + 1)
      refine ⟨k + 1, by omega, by rw [heq]; congr 1; omega, fun j hj => ?_, fun h => hfree (by omega)⟩
      cases j with
      | zero => exact hused
      | succ j =>
        have := hall j (by omega)
        rwa [show sequence + 1 + j = sequence + (j + 1) by omega] at this
    · next hfree => exact ⟨0, Nat.zero_le _, rfl, fun j hj => absurd hj (Nat.not_lt_zero j), fun _ => hfree⟩

/-- **An allocated id has never been used.** -/
theorem allocateScheduleId_fresh (folded : FoldedSchedules) : allocateScheduleId folded ∉ folded.seenIds := by
  intro hused
  rw [allocateScheduleId] at hused
  obtain ⟨k, hk, heq, hall, hfree⟩ :=
    allocateFrom_eq folded.seenIds folded.seenIds.dedup.length (folded.seenIds.dedup.length + 1)
  rcases Nat.lt_or_ge k folded.seenIds.dedup.length with hlt | hge
  · exact hfree hlt hused
  · -- one candidate more than there are ids, all of them used and distinct
    obtain rfl : k = folded.seenIds.dedup.length := Nat.le_antisymm hk hge
    set size := folded.seenIds.dedup.length with hsize
    have hnodup : ((List.range (size + 1)).map fun j => scheduleId (size + 1 + j)).Nodup := by
      refine List.Nodup.map_on ?_ nodup_range
      intro i _ j _ hij
      have := scheduleId_injective hij
      omega
    have hsubset : ((List.range (size + 1)).map fun j => scheduleId (size + 1 + j))
        ⊆ folded.seenIds.dedup := by
      intro id hid
      obtain ⟨j, hj, rfl⟩ := mem_map.mp hid
      rw [mem_range] at hj
      rw [mem_dedup]
      rcases Nat.lt_succ_iff_lt_or_eq.mp hj with hj | rfl
      · exact hall j hj
      · rw [← heq]
        exact hused
    have hlength := (subperm_of_subset hnodup hsubset).length_le
    rw [length_map, length_range, ← hsize] at hlength
    omega

theorem allocateScheduleId_trimmed (folded : FoldedSchedules) : Trimmed (allocateScheduleId folded) := by
  obtain ⟨k, -, heq, -⟩ :=
    allocateFrom_eq folded.seenIds folded.seenIds.dedup.length (folded.seenIds.dedup.length + 1)
  rw [allocateScheduleId, heq]
  exact scheduleId_trimmed _

theorem fold_ok {folded : FoldedSchedules}
    (h : foldScheduleEvents log seedLength = .ok folded) (hsafe : Safe seedLength log) :
    ∃ s, foldSuffix log seedLength = .ok s ∧ s.Inv ∧ seedLength ≤ log.length
      ∧ folded = { active := s.active.entries.map Prod.snd, seenIds := s.seen } := by
  obtain ⟨⟨-, -, hlength⟩, s, hs, hfolded⟩ := foldScheduleEvents_ok_iff.mp h
  have hseed : seedLength ≤ log.length := by omega
  obtain ⟨t, ht, hinv, -⟩ := (hsafe log prefix_rfl hseed).folds
  rw [Int.toNat_natCast] at hs
  cases hs.symm.trans ht
  exact ⟨s, hs, hinv, hseed, hfolded⟩

variable {cancelled appended : Bool} {p : Publication}

/-- **The block of `schedule_create`.** -/
theorem createBlock_growsTo (hs : inbox.session.Reachable)
    (hsafe : Safe seedLength (eventsOf inbox.session.log)) {now : TimeValue}
    (h : createBlock seedLength inbox prompt selector now cancelled p = (inbox', appended)) :
    GrowsTo seedLength inbox inbox' := by
  unfold createBlock at h
  split at h
  · cases h
    exact .refl hs
  · next folded hfold =>
    obtain ⟨s, hstate, hinv, hseed, rfl⟩ := fold_ok hfold hsafe
    split at h
    · cases h
      exact .refl hs
    · next record hrecord =>
      split at h
      · cases h
        exact .refl hs
      · obtain ⟨hrecordValid, hid⟩ := createRecord_valid (allocateScheduleId_trimmed _) hrecord
        have hvalid : (create record).Valid := hrecordValid
        have hfresh : record.id ∉ s.seen := by
          rw [hid]
          exact allocateScheduleId_fresh _
        have hchange : foldChange s (.create record)
            = .ok { active := s.active.set record.id record, seen := s.seen ++ [record.id] } := by
          rw [foldChange, if_neg hfresh]
          rfl
        rcases happend : appendChanges inbox (fun _ => p) 0 [.create record] with ⟨grown, result⟩
        rw [happend] at h
        cases h
        exact appendChanges_growsTo hs hseed hstate
          (.cons hvalid hchange (fun _ _ _ hdispatch => by cases hdispatch) (.nil _)) happend

/-- **The block of `schedule_delete`.** -/
theorem deleteBlock_growsTo (hs : inbox.session.Reachable) (hsafe : Safe seedLength (eventsOf inbox.session.log))
    (h : deleteBlock seedLength inbox id cancelled p = (inbox', appended)) :
    GrowsTo seedLength inbox inbox' := by
  unfold deleteBlock at h
  split at h
  · cases h
    exact .refl hs
  · next folded hfold =>
    obtain ⟨s, hstate, hinv, hseed, rfl⟩ := fold_ok hfold hsafe
    split at h
    · cases h
      exact .refl hs
    · next hany =>
      split at h
      · cases h
        exact .refl hs
      · -- the id is the key of an active record
        obtain ⟨r, hr, hid⟩ := any_eq_true.mp (not_not.mp hany)
        obtain ⟨⟨l, r'⟩, hentry, rfl⟩ := mem_map.mp hr
        have hactive : s.active.lookup l = some r' := InsertionMap.lookup_eq_some_iff.mpr hentry
        have hl : l = id := by
          rw [← hinv.named l r' hactive]
          exact of_decide_eq_true hid
        subst hl
        have hvalid : (delete l).Valid := hinv.named l r' hactive ▸ (hinv.valid l r' hactive).id
        have hchange : foldChange s (.delete l) = .ok { s with active := s.active.erase l } := by
          rw [foldChange, hactive]
          rfl
        rcases happend : appendChanges inbox (fun _ => p) 0 [.delete l] with ⟨grown, result⟩
        rw [happend] at h
        cases h
        exact appendChanges_growsTo hs hseed hstate
          (.cons hvalid hchange (fun _ _ _ hdispatch => by cases hdispatch) (.nil _)) happend

/-! ## Deciding -/

theorem dueInOrder_subperm (scheduledAt : α → String) (now : Int) (records : List α) :
    (dueInOrder scheduledAt now records).Subperm records := by
  have hsub : ((records.filterMap fun record => (dueTarget (scheduledAt record) now).map
      fun target => (target, record)).map Prod.snd).Sublist records := by
    induction records with
    | nil => exact nil_sublist _
    | cons record records ih =>
      cases htarget : dueTarget (scheduledAt record) now with
      | none =>
        rw [filterMap_cons_none (by rw [htarget]; rfl)]
        exact ih.cons record
      | some target =>
        rw [filterMap_cons_some (by rw [htarget]; rfl)]
        exact ih.cons_cons record
  exact ((perm_insertionSort _ _).map Prod.snd).subperm.trans hsub.subperm

theorem mem_oneShots {r : OneShotScheduleRecord} (h : r ∈ (s.active.entries.map Prod.snd).filterMap (·.oneShot?)) :
    ∃ id, s.active.lookup id = some (.oneShot r) := by
  obtain ⟨record, hrecord, hr⟩ := mem_filterMap.mp h
  obtain ⟨⟨id, record⟩, hentry, rfl⟩ := mem_map.mp hrecord
  cases record with
  | every _ => cases hr
  | oneShot record =>
    cases hr
    exact ⟨id, InsertionMap.lookup_eq_some_iff.mpr hentry⟩

theorem mem_everies {r : EveryScheduleRecord} (h : r ∈ (s.active.entries.map Prod.snd).filterMap (·.every?)) :
    ∃ id, s.active.lookup id = some (.every r) := by
  obtain ⟨record, hrecord, hr⟩ := mem_filterMap.mp h
  obtain ⟨⟨id, record⟩, hentry, rfl⟩ := mem_map.mp hrecord
  cases record with
  | oneShot _ => cases hr
  | every record =>
    cases hr
    exact ⟨id, InsertionMap.lookup_eq_some_iff.mpr hentry⟩

theorem FoldState.Inv.ids_nodup (h : s.Inv) : ((s.active.entries.map Prod.snd).map ScheduleRecord.id).Nodup := by
  have hkeys : (s.active.entries.map Prod.snd).map ScheduleRecord.id = s.active.keys := by
    rw [map_map]
    refine map_congr_left fun e he => ?_
    exact h.named e.1 e.2 (InsertionMap.lookup_eq_some_iff.mpr he)
  rw [hkeys]
  exact s.active.keys_nodup

theorem everies_ids_sublist (records : List ScheduleRecord) :
    ((records.filterMap (·.every?)).map EveryScheduleRecord.id).Sublist
      (records.map ScheduleRecord.id) := by
  induction records with
  | nil => exact nil_sublist _
  | cons record records ih =>
    cases record with
    | oneShot _ => exact ih.cons _
    | every _ => exact ih.cons_cons _

/-- A record of a batch is active, and its occurrence is the one the log will accept. -/
structure DueIn (s : FoldState) (now : Int) (due : EveryDue) : Prop where
  active : s.active.lookup due.record.id = some (.every due.record)
  resolved : ∃ o, resolveEveryOccurrence due.record now = .ok o ∧ o.occurrenceAt = due.occurrenceAt

variable {record : OneShotScheduleRecord} {seen : List String}

/-- **What a fold has due is active in it.** -/
theorem dueDecision_oneShot (hinv : s.Inv)
    (h : dueDecision { active := s.active.entries.map Prod.snd, seenIds := seen } now
      = .ok (.oneShot record)) : s.active.lookup record.id = some (.oneShot record) := by
  unfold dueDecision at h
  split at h
  · next first _ hdue =>
    obtain rfl := DueDecision.oneShot.inj (Except.ok.inj h)
    have hmem := (dueInOrder_subperm _ _ _).subset (hdue ▸ mem_cons_self)
    obtain ⟨id, hactive⟩ := mem_oneShots hmem
    obtain rfl : first.id = id := hinv.named id _ hactive
    exact hactive
  · split at h
    · cases h
    · obtain ⟨_, -, h⟩ := bind_eq_ok_iff.mp h
      cases h

variable {reminders : List EveryDue}

/-- **A batch has distinct records, each due in the fold.** -/
theorem dueDecision_every (hinv : s.Inv) {acceptedAt : String}
    (h : dueDecision { active := s.active.entries.map Prod.snd, seenIds := seen } now
      = .ok (.every reminders acceptedAt)) :
    acceptedAt = toISOString now ∧ (∀ due ∈ reminders, DueIn s now due)
      ∧ (reminders.map fun due => due.record.id).Nodup := by
  unfold dueDecision at h
  split at h
  · cases h
  · split at h
    · cases h
    · obtain ⟨resolved, hmap, h⟩ := bind_eq_ok_iff.mp h
      obtain ⟨rfl, rfl⟩ := DueDecision.every.inj (Except.ok.inj h)
      have hpairs := mapM_eq_ok_iff.mp hmap
      have hrecords : ∀ (records : List EveryScheduleRecord) (dues : List EveryDue),
          List.Forall₂ (fun record due => (do
            let occurrence ← resolveEveryOccurrence record now
            return ({ record, occurrenceAt := occurrence.occurrenceAt } : EveryDue)) = .ok due)
            records dues →
          dues.map EveryDue.record = records ∧ ∀ due ∈ dues, ∃ o, resolveEveryOccurrence due.record now = .ok o
              ∧ o.occurrenceAt = due.occurrenceAt := by
        intro records dues hall
        induction hall with
        | nil => exact ⟨rfl, forall_mem_nil _⟩
        | cons hdue _ ih =>
          obtain ⟨o, ho, hdue⟩ := bind_eq_ok_iff.mp hdue
          cases hdue
          refine ⟨by rw [map_cons, ih.1], ?_⟩
          rw [forall_mem_cons]
          exact ⟨⟨o, ho, rfl⟩, ih.2⟩
      obtain ⟨hsame, hresolved⟩ := hrecords _ _ hpairs
      have hsubperm := dueInOrder_subperm scheduledAt now
        ((s.active.entries.map Prod.snd).filterMap (·.every?))
      refine ⟨rfl, fun due hdue => ⟨?_, hresolved due hdue⟩, ?_⟩
      · have hmem : due.record ∈ dueInOrder scheduledAt now
            ((s.active.entries.map Prod.snd).filterMap (·.every?)) := by
          rw [← hsame]
          exact mem_map_of_mem hdue
        obtain ⟨id, hactive⟩ := mem_everies (hsubperm.subset hmem)
        obtain rfl : due.record.id = id := hinv.named id _ hactive
        exact hactive
      · have hids : (resolved.map fun due => due.record.id)
            = (resolved.map EveryDue.record).map EveryScheduleRecord.id := by
          rw [map_map]
          rfl
        rw [hids, hsame]
        obtain ⟨perm, hperm, hsub⟩ := hsubperm
        refine ((hperm.map EveryScheduleRecord.id).nodup_iff).mp ?_
        exact (hinv.ids_nodup.sublist (everies_ids_sublist _)).sublist (hsub.map _)

/-! ## Delivering -/

def Queues (e : SessionEvent) (text : String) : Prop :=
  e.type = spliced ∧ ∃ splice, Splice.read? e.data = some splice ∧ ∃ m ∈ splice.inserted,
    messageText? m.value = some text

variable {e : SessionEvent}

theorem Queues.carries (h : Queues e text) {o : Int} (hframes : Frames text o r) : Carries e r o := by
  obtain ⟨htype, splice, hread, m, hm, htext⟩ := h
  exact ⟨htype, splice, hread, m, hm, text, htext, hframes⟩

theorem acceptable_oneShot (hmem : e ∈ log.drop seedLength) (hinv : s.Inv) (hactive : s.active.lookup record.id = some (.oneShot record))
    (hqueues : Queues e (renderReminderFraming record)) :
    Acceptable seedLength log s [.dispatch record.id none] := by
  have hvalid := hinv.valid _ _ hactive
  have hchange : foldChange s (.dispatch record.id none) = .ok { s with active := s.active.erase record.id } := by
    rw [foldChange, hactive]
    rfl
  refine .cons hvalid.id hchange ?_ (.nil _)
  intro id acceptedAt r hdispatch hr
  obtain ⟨rfl, rfl⟩ := dispatch.inj hdispatch
  cases hactive.symm.trans hr
  obtain ⟨target, -, htarget⟩ := hvalid.target
  exact ⟨e, hmem, target, hqueues.carries ⟨rfl, htarget⟩⟩

/-- A due record of a batch can be dispatched, and its latest due occurrence is the one framed. -/
theorem DueIn.dispatch (hinv : s.Inv) {due : EveryDue} (h : DueIn s now due) :
    InRange now ∧ ∃ s', foldChange s (.dispatch due.record.id (some (toISOString now))) = .ok s'
      ∧ (∀ id, id ≠ due.record.id → s'.active.lookup id = s.active.lookup id)
      ∧ ∀ target, dateParse due.record.scheduledAt = some target →
        due.occurrenceAt = toISOString (latestDue target due.record.interval now) := by
  obtain ⟨o, ho, hoccurrence⟩ := h.resolved
  have hvalid := hinv.valid _ _ h.active
  obtain ⟨target, hrange, htarget⟩ := hvalid.target
  obtain ⟨hnow, hle, hlatest, -⟩ := (resolveEveryOccurrence_ok_iff hvalid hrange htarget).mp ho
  have hdispatch := (dispatchedRecord_every_iff hvalid hrange htarget).mpr
    ⟨_, now, rfl, dateParse_toISOString hnow, hnow, hle, rfl⟩
  refine ⟨hnow, { s with
    active := (due.record.after (latestDue target due.record.interval now)).elim
      (s.active.erase due.record.id) (s.active.set due.record.id) }, ?_, ?_, ?_⟩
  · rw [foldChange, h.active]
    dsimp only
    rw [hdispatch, ok_bind]
    cases due.record.after (latestDue target due.record.interval now) <;> rfl
  · intro id hother
    cases due.record.after (latestDue target due.record.interval now) with
    | none => rw [Option.elim_none, InsertionMap.lookup_erase, if_neg hother]
    | some next => rw [Option.elim_some, InsertionMap.lookup_set, if_neg hother]
  · intro target' hparse
    have htarget' : target = target' := by
      rw [show due.record.scheduledAt = toISOString target from htarget, dateParse_toISOString hrange] at hparse
      exact Option.some.inj hparse
    rw [← htarget', ← hoccurrence, hlatest]

/-- **The dispatches of a batch**, each of another record, once the batch's message is queued. -/
theorem acceptable_batch (hmem : e ∈ log.drop seedLength)
    (hqueues : Queues e (renderEveryReminderBatchFraming reminders)) {dues : List EveryDue}
    (hinv : s.Inv) (hsub : dues ⊆ reminders) (hdue : ∀ due ∈ dues, DueIn s now due)
    (hnodup : (dues.map fun due => due.record.id).Nodup) :
    Acceptable seedLength log s
      (dues.map fun due => .dispatch due.record.id (some (toISOString now))) := by
  induction dues generalizing s with
  | nil => exact .nil s
  | cons due dues ih =>
    rw [forall_mem_cons] at hdue
    rw [map_cons, nodup_cons] at hnodup
    obtain ⟨hnow, s', hchange, hothers, hlatest⟩ := hdue.1.dispatch hinv
    have hvalid : (dispatch due.record.id (some (toISOString now))).Valid :=
      ⟨(hinv.valid _ _ hdue.1.active).id, now, hnow, rfl⟩
    refine .cons hvalid hchange ?_ (ih (hinv.change hvalid hchange) (cons_subset.mp hsub).2 ?_ hnodup.2)
    · intro id acceptedAt r hdispatch hr
      obtain ⟨rfl, rfl⟩ := dispatch.inj hdispatch
      cases hdue.1.active.symm.trans hr
      intro target text accepted htarget htext hparse
      cases htext
      cases (dateParse_toISOString hnow).symm.trans hparse
      exact ⟨e, hmem, hqueues.carries ⟨reminders, due, rfl, hsub mem_cons_self, rfl, rfl, hlatest target htarget⟩⟩
    · intro other hother
      have hid : other.record.id ≠ due.record.id := by
        intro heq
        exact hnodup.1 (heq ▸ mem_map_of_mem hother)
      exact ⟨by rw [hothers _ hid]; exact (hdue.2 other hother).active, (hdue.2 other hother).resolved⟩

variable {claim : Claim}

/-- **Delivering**: the message first, then the dispatches. -/
theorem deliver_growsTo (hs : inbox.session.Reachable) (hseed : seedLength ≤ (eventsOf inbox.session.log).length)
    (hfold : foldSuffix (eventsOf inbox.session.log) seedLength = .ok s)
    (hchanges : ∀ (log : List SessionEvent) (e : SessionEvent), e ∈ log.drop seedLength →
      Queues e text → Acceptable seedLength log s changes)
    (h : deliver inbox claim text changes = (inbox', result)) : GrowsTo seedLength inbox inbox' := by
  rw [deliver] at h
  split at h
  · next mid error hsplice =>
    cases h
    exact (mutate_growsForeign hs hsplice).growsTo
  · next mid removed hsplice =>
    obtain ⟨hmid, event, htype, hlog, hmessage⟩ := splice_logs_message hs hsplice
    have hspliced : GrowsTo seedLength inbox mid := (mutate_growsForeign hs hsplice).growsTo
    -- observers of the notification add events of others
    have hnotified := foldl_growsForeign claim.notified hmid
    have hboth := hspliced.trans hnotified.growsTo
    dsimp only at h
    split at h
    · obtain ⟨hs', es, hes, hlog'⟩ := hnotified
      have hseed' : seedLength ≤ (eventsOf inbox.session.log ++ [event]).length := by
        rw [length_append]
        omega
      have hmem : event ∈ (eventsOf inbox.session.log ++ [event] ++ es).drop seedLength := by
        rw [drop_append_of_le_length hseed', drop_append_of_le_length hseed]
        exact mem_append_left _ (mem_append_right _ (mem_singleton.mpr rfl))
      have hfold' : foldSuffix (eventsOf inbox.session.log ++ [event] ++ es) seedLength = .ok s := by
        rw [foldSuffix_foreign hseed' hes, foldSuffix_foreign hseed, hfold]
        intro e he
        rw [mem_singleton.mp he, htype]
        exact spliced_ne
      rw [hlog] at hlog'
      rw [← hlog'] at hmem hfold'
      refine hboth.trans (appendChanges_growsTo hs' ?_ hfold' (hchanges _ event hmem ⟨htype, hmessage⟩) h)
      rw [hlog', length_append]
      omega
    · cases h
      exact hboth

/-- **The job of a claim.** -/
theorem claimDue_growsTo (hs : inbox.session.Reachable) (hsafe : Safe seedLength (eventsOf inbox.session.log))
    (h : claimDue seedLength inbox claim = (inbox', result)) : GrowsTo seedLength inbox inbox' := by
  unfold claimDue at h
  split at h
  · cases h
    exact .refl hs
  · split at h
    · cases h
      exact .refl hs
    · next folded hfold =>
      obtain ⟨s, hstate, hinv, hseed, rfl⟩ := fold_ok hfold hsafe
      split at h
      · cases h
        exact .refl hs
      · cases h
        exact .refl hs
      · next record hdecision =>
        have hactive := dueDecision_oneShot hinv hdecision
        exact deliver_growsTo hs hseed hstate
          (fun _ _ hmem hqueues => acceptable_oneShot hmem hinv hactive hqueues) h
      · next reminders acceptedAt hdecision =>
        obtain ⟨rfl, hdue, hnodup⟩ := dueDecision_every hinv hdecision
        exact deliver_growsTo hs hseed hstate (fun _ _ hmem hqueues =>
          acceptable_batch hmem hqueues hinv (List.Subset.refl _) hdue hnodup) h

/-! ## The system -/

namespace Schedules

@[simp] theorem requestDrive_inbox (s : Schedules) (starts : Bool) :
    (s.requestDrive starts).inbox = s.inbox := by
  unfold requestDrive
  split
  · rfl
  · dsimp only
    split <;> rfl

@[simp] theorem finishDrive_inbox (s : Schedules) (rest : List (Transaction × Stage)) :
    (s.finishDrive rest).inbox = s.inbox := by
  unfold finishDrive
  split <;> rfl

@[simp] theorem arm_inbox (s : Schedules) (target : Option Int) (now : TimeValue) :
    (s.arm target now).inbox = s.inbox := by
  cases target <;> rfl

@[simp] theorem fault_inbox (s : Schedules) : s.fault.inbox = s.inbox := rfl

@[simp] theorem faultAppend_inbox (s : Schedules) : s.faultAppend.inbox = s.inbox := rfl

variable {s : Schedules}

theorem drivePreflight_growsTo (hs : s.inbox.session.Reachable) (hsafe : Safe seedLength s.log)
    (rest : List (Transaction × Stage)) (env : BlockEnv) :
    GrowsTo seedLength s.inbox (s.drivePreflight seedLength rest env).inbox := by
  have hsame : GrowsTo seedLength s.inbox s.inbox := .refl hs
  unfold drivePreflight
  split
  · rwa [finishDrive_inbox]
  · split
    · rwa [finishDrive_inbox, fault_inbox]
    · split
      · rwa [finishDrive_inbox]
      · rwa [finishDrive_inbox, arm_inbox]
      · split
        · rwa [finishDrive_inbox]
        · have hclaim : ∀ inbox result, claimDue seedLength s.inbox env.claim = (inbox, result) →
              GrowsTo seedLength s.inbox inbox :=
            fun inbox result hdue => claimDue_growsTo hs hsafe hdue
          split
          · next hdue => rw [finishDrive_inbox]; exact hclaim _ _ hdue
          · next hdue => rw [finishDrive_inbox, fault_inbox]; exact hclaim _ _ hdue
          · next hdue => rw [finishDrive_inbox, faultAppend_inbox]; exact hclaim _ _ hdue
          · next hdue => rw [finishDrive_inbox, arm_inbox]; exact hclaim _ _ hdue
          · next hdue => exact hclaim _ _ hdue

theorem acknowledged_growsTo (hs : s.inbox.session.Reachable) (hsafe : Safe seedLength s.log)
    (env : BlockEnv) (transaction : Transaction) (stage : Stage) (rest : List (Transaction × Stage)) :
    GrowsTo seedLength s.inbox (s.acknowledged seedLength env transaction stage rest).inbox := by
  have hsame : GrowsTo seedLength s.inbox s.inbox := .refl hs
  unfold acknowledged
  split
  · exact drivePreflight_growsTo hs hsafe rest env
  · split
    · rwa [finishDrive_inbox]
    · rwa [finishDrive_inbox, requestDrive_inbox]
  · next rest prompt selector =>
    have hblock : ∀ inbox appended, createBlock seedLength s.inbox prompt selector env.now env.cancelled
        env.publication = (inbox, appended) → GrowsTo seedLength s.inbox inbox :=
      fun inbox appended h => createBlock_growsTo hs hsafe h
    dsimp only
    rw [requestDrive_inbox]
    split
    · next h => exact hblock _ _ h
    · next h => exact hblock _ _ h
  · next rest id =>
    have hblock : ∀ inbox appended, deleteBlock seedLength s.inbox id env.cancelled env.publication
        = (inbox, appended) → GrowsTo seedLength s.inbox inbox :=
      fun inbox appended h => deleteBlock_growsTo hs hsafe h
    dsimp only
    rw [requestDrive_inbox]
    split
    · next h => exact hblock _ _ h
    · next h => exact hblock _ _ h
  all_goals rwa [requestDrive_inbox]

/-- **The step lemma**: whatever happens, the log grows as it may. -/
theorem step_growsTo {s' : Schedules} (hs : s.inbox.session.Reachable) (hsafe : Safe seedLength s.log)
    {a : Action} (h : s.step seedLength a = some s') : GrowsTo seedLength s.inbox s'.inbox := by
  have hsame : GrowsTo seedLength s.inbox s.inbox := .refl hs
  cases a with
  | trigger starts =>
    cases h
    rwa [requestDrive_inbox]
  | timerFires starts =>
    rw [step] at h
    split at h
    · cases h
    · cases h
      rwa [requestDrive_inbox]
  | idle fulfilled starts =>
    rw [step] at h
    split at h
    · cases h
      dsimp only
      split
      · rwa [requestDrive_inbox]
      · exact hsame
    · cases h
  | dispose =>
    cases h
    exact hsame
  | call transaction =>
    cases transaction with
    | drive => cases h
    | create prompt selector | list =>
      cases h
      exact hsame
    | delete id =>
      rw [step] at h
      split at h
      · cases h
      · cases h
        exact hsame
  | begin cancelled live =>
    rw [step] at h
    split at h
    · dsimp only at h
      split at h
      · cases h
        rwa [finishDrive_inbox]
      · cases h
        exact hsame
    · split at h
      · cases h
        exact hsame
      · cases h
        exact hsame
    · cases h
  | flushed ok env =>
    rw [step] at h
    split at h
    · cases h
    · cases h
    · split at h
      · cases h
        exact acknowledged_growsTo hs hsafe env _ _ _
      · split at h
        · cases h
          rwa [finishDrive_inbox]
        · cases h
          exact hsame
  | other op hop =>
    cases h
    exact (inboxStep_growsForeign hs hop).growsTo

theorem safe_of_foreign (hseed : seedLength ≤ log.length)
    (h : ∀ e ∈ log.drop seedLength, e.type ≠ scheduleChange) : Safe seedLength log := by
  intro durable hpre hlength
  have hdurable : ∀ e ∈ durable.drop seedLength, e.type ≠ scheduleChange := by
    obtain ⟨rest, rfl⟩ := hpre
    intro e he
    refine h e ?_
    rw [drop_append_of_le_length hlength]
    exact mem_append_left _ he
  refine ⟨⟨{}, foldlM_foreign hdurable, .empty, ?_⟩, ?_⟩
  · rintro c ⟨e, he, htype, -⟩
    exact absurd htype (hdurable e he)
  · rintro c o now ⟨e, he, htype, -⟩
    exact absurd htype (hdurable e he)

theorem create_session {session : Session} (h : Inbox.create session seedLength = .ok inbox) :
    inbox.session = session := by
  rw [Inbox.create] at h
  split at h
  · cases h
  · cases h
    rfl

/-- **The run lemma**: every prefix of every log of the system loses nothing. -/
theorem Reachable.safe (h : Reachable seedLength s) :
    s.inbox.session.Reachable ∧ seedLength ≤ s.log.length ∧ Safe seedLength s.log := by
  induction h with
  | @start session inbox hs hcreate hseed hforeign =>
    obtain rfl := create_session hcreate
    have hlength : seedLength ≤ (eventsOf inbox.session.log).length := by rwa [eventsOf_length]
    exact ⟨hs, hlength, safe_of_foreign hlength hforeign⟩
  | step a _ hstep ih =>
    obtain ⟨hs, hseed, hsafe⟩ := ih
    obtain ⟨hs', hgrows⟩ := step_growsTo hs hsafe hstep
    exact ⟨hs', hseed.trans hgrows.hasPrefix.length_le, hgrows.safe hseed hsafe⟩
  | @restart s durable rest session inbox _ hpre hlength hs hlog hforeign hcreate ih =>
    obtain rfl := create_session hcreate
    -- what is left of the log is safe already, and others added to it
    have hdurable : Safe seedLength durable := fun shorter hshorter => ih.2.2 shorter (hshorter.trans hpre)
    have hgrows : Grows seedLength durable (durable ++ rest) := .append_foreign hforeign
    refine ⟨hs, ?_, ?_⟩
    · rw [log, hlog, length_append]
      omega
    · rw [log, hlog]
      exact hgrows.safe hlength hdurable

end Schedules

/-! ## What a batch says -/

/-- **The framing of a batch determines its entries**, whatever their prompts contain. -/
theorem batch_entries {reminders' : List EveryDue}
    (h : renderEveryReminderBatchFraming reminders = renderEveryReminderBatchFraming reminders') :
    (reminders.map fun due => (due.record.id, due.occurrenceAt, due.record.prompt))
      = reminders'.map fun due => (due.record.id, due.occurrenceAt, due.record.prompt) := by
  have hwf : ∀ dues : List EveryDue, (batchPayload dues).WF := by
    intro dues
    simp [batchPayload, WF, WFFields, Json.keys]
  have hpayload : batchPayload reminders = batchPayload reminders' := by
    simp only [renderEveryReminderBatchFraming, String.intercalate_cons_cons,
      String.intercalate_singleton, String.append_right_inj] at h
    have htext : toString (String.ofList (JsonText.text (batchPayload reminders)))
        = toString (String.ofList (JsonText.text (batchPayload reminders'))) := by
      simpa using h
    have hparse := congrArg JsonText.parse (String.ofList_injective htext)
    rw [JsonText.parse_text (hwf _), JsonText.parse_text (hwf _)] at hparse
    exact Option.some.inj hparse
  have hentry : Function.Injective fun entry : String × String × String =>
      obj [("schedule_id", .str entry.1), ("occurrence_at", .str entry.2.1),
        ("reminder_prompt", .str entry.2.2)] := by
    rintro ⟨id, at_, prompt⟩ ⟨id', at', prompt'⟩ heq
    simpa using heq
  refine map_injective_iff.mpr hentry ?_
  rw [map_map, map_map]
  exact arr.inj hpayload

variable {o : Int}

theorem Queues.carries_every (hqueues : ∀ splice, Splice.read? e.data = some splice → ∀ m ∈ splice.inserted,
      messageText? m.value = some (renderEveryReminderBatchFraming reminders)) {r : EveryScheduleRecord} (h : Carries e (.every r) o) : toISOString o ∈ reminders.map EveryDue.occurrenceAt := by
  obtain ⟨-, splice, hread, m, hm, text, htext, reminders', due, rfl, hdue, -, -, ho⟩ := h
  have hsame := batch_entries (Option.some.inj ((hqueues splice hread m hm).symm.trans htext))
  have hmem : toISOString o ∈ (reminders'.map fun due =>
      (due.record.id, due.occurrenceAt, due.record.prompt)).map fun entry => entry.2.1 := by
    rw [map_map]
    exact mem_map.mpr ⟨due, hdue, ho⟩
  rwa [← hsame, map_map] at hmem

/-! ## No reminder is lost -/

/-- **No reminder is lost at a crash point.**  In every prefix of every log that has the seed, every occurrence of a
schedule created there that has come due is outstanding in the fold of the prefix, or the prefix has the message of
the reminder, or has deleted the schedule. The message is that of the occurrence, or for a fixed-rate schedule of a
later one, by which late occurrences are caught up. -/
theorem no_reminder_lost {s : Schedules} (h : Schedules.Reachable seedLength s)
    {durable : List SessionEvent} (hdurable : durable <+: s.log) (hseed : seedLength ≤ durable.length)
    {c : ScheduleRecord} {now : Int} (hcreates : Creates seedLength durable c)
    (hdue : CameDue c o now) :
    Outstanding seedLength durable c o now ∨ (∃ e ∈ durable.drop seedLength, Carries e c o
        ∨ (∃ r, c = .every r) ∧ ∃ later, o < later ∧ Carries e c later)
      ∨ Deletes seedLength durable c.id := by
  obtain ⟨-, -, hsafe⟩ := h.safe
  rcases (hsafe durable hdurable hseed).kept c o now hcreates hdue with hout | hdelivered | hdeleted
  · exact Or.inl hout
  · obtain ⟨e, hmem, o', hle, hcarries⟩ := hdelivered
    refine Or.inr (Or.inl ⟨e, hmem, ?_⟩)
    cases c with
    | oneShot r =>
      -- the framing of a one-shot reminder is that of its only occurrence
      obtain ⟨htype, splice, hread, m, hm, text, htext, hframe, -⟩ := hcarries
      exact Or.inl ⟨htype, splice, hread, m, hm, text, htext, hframe, hdue.1.2⟩
    | every r =>
      rcases hle.eq_or_lt with rfl | hlt
      · exact Or.inl hcarries
      · exact Or.inr ⟨⟨r, rfl⟩, o', hlt, hcarries⟩
  · exact Or.inr (Or.inr hdeleted)

/-! ## Runs -/

def schedulesAfter (actions : List Action) : Option Schedules :=
  (Inbox.create enteredSession 0).toOption.bind fun inbox => Machine.exec (Schedules.step 0) { inbox } actions

theorem reachable_schedulesAfter {actions : List Action} {s : Schedules}
    (h : schedulesAfter actions = some s) : Schedules.Reachable 0 s := by
  obtain ⟨inbox, hinbox, hrun⟩ := Option.bind_eq_some_iff.mp h
  have hcreate : Inbox.create enteredSession 0 = .ok inbox := by
    cases hmade : Inbox.create enteredSession 0 with
    | error error =>
      rw [hmade] at hinbox
      cases hinbox
    | ok made =>
      rw [hmade] at hinbox
      exact congrArg _ (Option.some.inj hinbox)
  exact Machine.exec_invariant (fun a _ _ _ hs hstep => .step a hs hstep)
    (.start enteredSession_reachable hcreate (Nat.zero_le _) (forall_mem_nil _)) hrun

def noon : TimeValue := ⟨1709294400000, by decide⟩

def overdue : TimeValue := ⟨1709294461000, by decide⟩

def awake : TimeValue := ⟨1709302021000, by decide⟩

def publishedAt (now : TimeValue) : Publication where
  now := ⟨now.ms, by have := now.bound; unfold SafeInteger.IsSafe; omega⟩

def acknowledgedAt (now : TimeValue) (busy : Bool) : Action :=
  .flushed true
    { now, publication := publishedAt now
      claim := { busy, now, messageId := "m", followup := publishedAt now, appends := fun _ => publishedAt now } }

/-- Create a schedule at noon, and let the runtime arm its timer. -/
def createdAtNoon (selector : Selector) : List Action :=
  [.call (.create "stand up" selector), .begin false true, acknowledgedAt noon false,
    acknowledgedAt noon false, .begin false true, acknowledgedAt noon false, .begin false true,
    acknowledgedAt noon false]

/-- A reminder due at 12:01 finds the agent busy, and is deleted while it waits. -/
def deletedOverdue : List Action :=
  createdAtNoon (.after (.int 60)) ++ [.timerFires true, .begin false true, acknowledgedAt overdue true,
    .call (.delete "schedule-1"), .begin false true, acknowledgedAt overdue true]

def caughtUp : List Action :=
  createdAtNoon (.every (.int 300)) ++ [.timerFires true, .begin false true, acknowledgedAt awake false]

def inAMinute : ScheduleRecord :=
  .oneShot (.after
    { id := "schedule-1", prompt := "stand up", afterSeconds := 60
      scheduledAt := "2024-03-01T12:01:00.000Z" })

def deletedLog : List SessionEvent :=
  [changeEvent 0 noon.ms (.create inAMinute), changeEvent 1 overdue.ms (.delete "schedule-1")]

def standUp : EveryScheduleRecord :=
  { id := "schedule-1", prompt := "stand up", everySeconds := 300
    scheduledAt := "2024-03-01T12:05:00.000Z" }

def latestOnly : List EveryDue := [⟨standUp, "2024-03-01T14:05:00.000Z"⟩]

def caughtUpLog : List SessionEvent :=
  [changeEvent 0 noon.ms (.create (.every standUp)),
    { type := spliced, seq := 1, time := awake.ms
      data := .obj [("target", .str "next-turn"), ("start", .num (.int 0)),
        ("inserted", .arr [.obj [("id", .str "m"),
          ("content", .arr [.obj [("type", .str "text"),
            ("text", .str (renderEveryReminderBatchFraming latestOnly))]]),
          ("source", .obj [("kind", .str "plugin"), ("plugin", .str "schedule")]),
          ("role", .str "user")]])] },
    changeEvent 2 awake.ms (.dispatch "schedule-1" (some "2024-03-01T14:07:01.000Z"))]

theorem log_deletedOverdue : (schedulesAfter deletedOverdue).map Schedules.log = some deletedLog := by decide +kernel

theorem log_caughtUp : (schedulesAfter caughtUp).map Schedules.log = some caughtUpLog := by decide +kernel

/-- Every occurrence that came due is outstanding or in a message of its own. -/
def KeepsEveryOccurrence (seedLength : Nat) (log : List SessionEvent) : Prop :=
  ∀ c o now, Creates seedLength log c → CameDue c o now →
    Outstanding seedLength log c o now ∨ ∃ e ∈ log.drop seedLength, Carries e c o

theorem deletedLog_loses : ¬ KeepsEveryOccurrence 0 deletedLog := by
  intro hkeeps
  have hcreates : Creates 0 deletedLog inAMinute := ⟨_, mem_cons_self, by decide +kernel⟩
  have hdue : CameDue inAMinute 1709294460000 overdue.ms := by
    refine ⟨⟨by decide, ?_⟩, by decide⟩
    decide +kernel
  rcases hkeeps _ _ _ hcreates hdue with ⟨s, r, hs, hr, -⟩ | ⟨e, he, htype, -⟩
  · have hgone : (foldSuffix deletedLog 0).map (fun s => s.active.lookup "schedule-1") = .ok none := by
      decide +kernel
    rw [hs] at hgone
    cases (Except.ok.inj hgone).symm.trans hr
  · have hnone : ∀ e ∈ deletedLog, e.type ≠ spliced := by decide
    exact hnone e he htype

theorem caughtUpLog_loses : ¬ KeepsEveryOccurrence 0 caughtUpLog := by
  intro hkeeps
  have hin : InRange 1709294700000 := by decide
  have htext : standUp.scheduledAt = toISOString 1709294700000 := by decide +kernel
  have hcreates : Creates 0 caughtUpLog (.every standUp) := ⟨_, mem_cons_self, by decide +kernel⟩
  have hdue : CameDue (.every standUp) 1709294700000 awake.ms :=
    ⟨⟨hin, _, hin, htext, le_refl _, by rw [sub_self]; exact Int.dvd_zero _⟩, by decide⟩
  rcases hkeeps _ _ _ hcreates hdue with ⟨s, r, hs, hr, ⟨scheduledAt, rfl⟩, ⟨-, target, htarget, hat, hle, -⟩, -⟩
    | ⟨e, he, hcarries⟩
  · -- what is left has moved on to 14:10
    have hleft : (foldSuffix caughtUpLog 0).map (fun s => s.active.lookup "schedule-1")
        = .ok (some (.every { standUp with scheduledAt := toISOString 1709302200000 })) := by
      decide +kernel
    rw [hs] at hleft
    have hrecord := (Except.ok.inj hleft).symm.trans hr
    simp only [Option.some.injEq, ScheduleRecord.every.injEq, mk.injEq, true_and]
      at hrecord
    have := toISOString_injective (by decide) htarget (hrecord.trans hat)
    omega
  · -- the only message is that of 14:05
    have htexts : ∀ e ∈ caughtUpLog, e.type = spliced →
        (Splice.read? e.data).map (fun splice => splice.inserted.map fun m => messageText? m.value)
          = some [some (renderEveryReminderBatchFraming latestOnly)] := by
      decide +kernel
    have honly : ∀ splice, Splice.read? e.data = some splice → ∀ m ∈ splice.inserted,
        messageText? m.value = some (renderEveryReminderBatchFraming latestOnly) := by
      intro splice hread m hm
      have hall := htexts e he hcarries.1
      rw [hread, Option.map_some, Option.some.injEq] at hall
      have hmem := mem_map_of_mem (f := fun m : Pending => messageText? m.value) hm
      rw [hall] at hmem
      exact mem_singleton.mp hmem
    have hmem := Queues.carries_every honly hcarries
    rw [← htext] at hmem
    revert hmem
    decide

/-- **The whole promise.**  An overdue reminder that is deleted is never delivered, and of the occurrences slept
through only the latest is. -/
theorem reminders_deleted_and_caught_up :
    (∃ s, Schedules.Reachable 0 s ∧ s.log = deletedLog ∧ ¬ KeepsEveryOccurrence 0 s.log)
      ∧ ∃ s, Schedules.Reachable 0 s ∧ s.log = caughtUpLog ∧ ¬ KeepsEveryOccurrence 0 s.log := by
  obtain ⟨s, hs, hlog⟩ := Option.map_eq_some_iff.mp log_deletedOverdue
  obtain ⟨s', hs', hlog'⟩ := Option.map_eq_some_iff.mp log_caughtUp
  exact ⟨⟨s, reachable_schedulesAfter hs, hlog, hlog ▸ deletedLog_loses⟩,
    s', reachable_schedulesAfter hs', hlog', hlog' ▸ caughtUpLog_loses⟩

/-- The crash after the message, before the dispatch. -/
theorem no_reminder_lost_between :
    Outstanding 0 (caughtUpLog.take 2) (.every standUp) 1709301900000 awake.ms
      ∨ (∃ e ∈ (caughtUpLog.take 2).drop 0, Carries e (.every standUp) 1709301900000
        ∨ (∃ r, ScheduleRecord.every standUp = .every r)
          ∧ ∃ later, 1709301900000 < later ∧ Carries e (.every standUp) later)
      ∨ Deletes 0 (caughtUpLog.take 2) "schedule-1" := by
  obtain ⟨s, hs, hlog⟩ := Option.map_eq_some_iff.mp log_caughtUp
  have hin : InRange 1709294700000 := by decide
  have htext : standUp.scheduledAt = toISOString 1709294700000 := by decide +kernel
  have hcreates : Creates 0 (caughtUpLog.take 2) (.every standUp) := ⟨_, mem_cons_self, by decide +kernel⟩
  exact no_reminder_lost (reachable_schedulesAfter hs) (hlog ▸ take_prefix 2 caughtUpLog)
    (Nat.zero_le _) hcreates ⟨⟨by decide, _, hin, htext, by decide, by decide⟩, by decide⟩

end CocoHarness.Schedule
