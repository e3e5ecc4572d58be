/-
# CocoHarness.Schedule.FoldRuns — what the fold knows of every log the package writes.

The fold reads each change strictly, so one change a block should not have written would make the
session unloadable.  No block writes one (`Reachable.safe`); here the state of the fold is told from
the log: the ids it has seen are those of the creations in order, the active records are some of
them in the same order, and an id that has left the active set never comes back.
-/
import CocoHarness.Schedule.CrashSafety

namespace CocoHarness.Schedule

open Lib Lib.SafeInteger SessionLog Agent List InsertionMap

variable {seedLength : Nat} {log : List SessionEvent}

/-! ## What an event says of an id -/

def change? (e : SessionEvent) : Option ScheduleChange :=
  if e.type = scheduleChange then (decodeScheduleChange e.data).toOption else none

def ScheduleChange.id : ScheduleChange → String
  | .create schedule => schedule.id
  | .delete id => id
  | .dispatch id _ => id

def ScheduleChange.createdId? : ScheduleChange → Option String
  | .create schedule => some schedule.id
  | _ => none

def createdIds (events : List SessionEvent) : List String :=
  events.filterMap fun e => (change? e).bind ScheduleChange.createdId?

def Uses (events : List SessionEvent) (id : String) : Prop :=
  ∃ e ∈ events, ∃ change, change? e = some change ∧ change.id = id

theorem createdIds_snoc (events : List SessionEvent) (e : SessionEvent) : createdIds (events ++ [e])
      = createdIds events ++ ((change? e).bind ScheduleChange.createdId?).toList := by
  rw [createdIds, createdIds, filterMap_append]
  cases h : (change? e).bind ScheduleChange.createdId? with
  | none | some id => simp [h]

variable {s s' : FoldState} {e : SessionEvent}

theorem foldEvent_change (h : foldEvent s e = .ok s') : (change? e = none ∧ s' = s)
      ∨ ∃ change, change? e = some change ∧ change.Valid ∧ foldChange s change = .ok s' := by
  rcases foldEvent_ok h with ⟨htype, rfl⟩ | ⟨htype, change, hdecode, hchange⟩
  · exact Or.inl ⟨if_neg htype, rfl⟩
  · refine Or.inr ⟨change, ?_, decodeScheduleChange_valid hdecode, hchange⟩
    rw [change?, if_pos htype, hdecode]
    rfl

/-! ## The order of the active records -/

/-- What the fold has seen are the creations, and what is active are some of them in the same order. -/
structure Tracks (events : List SessionEvent) (s : FoldState) : Prop where
  inv : s.Inv
  seen : s.seen = createdIds events
  order : s.active.keys.Sublist s.seen
  used : ∀ id, Uses events id → id ∈ s.seen

theorem Tracks.empty : Tracks [] {} := by
  refine ⟨.empty, rfl, ?_, ?_⟩
  · exact nil_sublist _
  · rintro id ⟨e, hmem, -⟩
    exact absurd hmem not_mem_nil

theorem keys_set_of_lookup {m : InsertionMap String ScheduleRecord} {id : String}
    {record : ScheduleRecord} (h : m.lookup id = some record) (next : ScheduleRecord) :
    (m.set id next).keys = m.keys := by
  obtain ⟨entries, hnodup⟩ := m
  show (setEntries id next entries).map Prod.fst = entries.map Prod.fst
  replace h : entries.lookup id = some record := h
  clear hnodup
  induction entries with
  | nil => cases h
  | cons entry rest ih =>
    obtain ⟨key, value⟩ := entry
    rw [setEntries]
    split
    · next heq => rw [map_cons, map_cons, heq]
    · next hne =>
      rw [lookup_cons, beq_false_of_ne (Ne.symm hne)] at h
      rw [map_cons, map_cons, ih h]

theorem keys_erase_sublist (m : InsertionMap String ScheduleRecord) (id : String) :
    (m.erase id).keys.Sublist m.keys := filter_sublist.map Prod.fst

/-- A change other than a creation shows no new id and keeps the active records in order. -/
theorem foldChange_keys (hs : s.Inv) {change : ScheduleChange} (h : foldChange s change = .ok s') :
    (∃ schedule, change = .create schedule ∧ schedule.id ∉ s.seen
        ∧ s'.seen = s.seen ++ [schedule.id] ∧ s'.active.keys = s.active.keys ++ [schedule.id])
      ∨ change.createdId? = none ∧ change.id ∈ s.active.keys ∧ s'.seen = s.seen
        ∧ s'.active.keys.Sublist s.active.keys := by
  rcases foldChange_ok h with ⟨schedule, rfl, hnew, rfl⟩ | ⟨id, record, rfl, hactive, rfl⟩
    | ⟨id, acceptedAt, record, next, rfl, hactive, -, rfl⟩
  · refine Or.inl ⟨schedule, rfl, hnew, rfl, ?_⟩
    have hfree : s.active.lookup schedule.id = none := by
      cases hlookup : s.active.lookup schedule.id with
      | none => rfl
      | some record => exact absurd (hs.seen _ _ hlookup) hnew
    show (s.active.set schedule.id schedule).entries.map Prod.fst = _
    rw [entries_set_of_lookup_none hfree, map_append]
    rfl
  · have hkey : id ∈ s.active.keys := by
      rw [← InsertionMap.lookup_isSome_iff, hactive]
      rfl
    exact Or.inr ⟨rfl, hkey, rfl, keys_erase_sublist _ _⟩
  · have hkey : id ∈ s.active.keys := by
      rw [← InsertionMap.lookup_isSome_iff, hactive]
      rfl
    refine Or.inr ⟨rfl, hkey, rfl, ?_⟩
    cases next with
    | none => exact keys_erase_sublist _ _
    | some next =>
      show (s.active.set id next).keys.Sublist _
      rw [keys_set_of_lookup hactive]

variable {events : List SessionEvent}

/-- **One event.** -/
theorem Tracks.snoc (h : Tracks events s) (hevent : foldEvent s e = .ok s') : Tracks (events ++ [e]) s' := by
  have hinv' : s'.Inv := h.inv.event hevent
  have huses : ∀ id, Uses (events ++ [e]) id →
      Uses events id ∨ ∃ change, change? e = some change ∧ change.id = id := by
    rintro id ⟨used, hmem, hused⟩
    rcases mem_append.mp hmem with hmem | hmem
    · exact Or.inl ⟨used, hmem, hused⟩
    · rw [mem_singleton.mp hmem] at hused
      exact Or.inr hused
  rcases foldEvent_change hevent with ⟨hnone, rfl⟩ | ⟨change, hsome, -, hchange⟩
  · refine ⟨hinv', ?_, h.order, ?_⟩
    · rw [createdIds_snoc, hnone, Option.bind_none, Option.toList_none, append_nil]
      exact h.seen
    · intro id hid
      rcases huses id hid with hid | ⟨change, hsome, -⟩
      · exact h.used id hid
      · rw [hnone] at hsome
        cases hsome
  · rcases foldChange_keys h.inv hchange with ⟨schedule, rfl, hnew, hseen, hkeys⟩
      | ⟨hcreated, hkey, hseen, hkeys⟩
    · refine ⟨hinv', ?_, ?_, ?_⟩
      · rw [createdIds_snoc, hsome, hseen, h.seen]
        rfl
      · rw [hkeys, hseen]
        exact h.order.append (List.Sublist.refl _)
      · intro id hid
        rw [hseen]
        rcases huses id hid with hid | ⟨change, hsome', rfl⟩
        · exact mem_append_left _ (h.used id hid)
        · cases hsome.symm.trans hsome'
          exact mem_append_right _ (mem_singleton.mpr rfl)
    · refine ⟨hinv', ?_, ?_, ?_⟩
      · rw [createdIds_snoc, hsome, Option.bind_some, hcreated, hseen, h.seen, Option.toList_none, append_nil]
      · rw [hseen]
        exact hkeys.trans h.order
      · intro id hid
        rw [hseen]
        rcases huses id hid with hid | ⟨change', hsome', rfl⟩
        · exact h.used id hid
        · cases hsome.symm.trans hsome'
          exact h.order.subset hkey

/-- **The run lemma**: the fold of every event list tracks it. -/
theorem tracks_of_fold (h : events.foldlM foldEvent {} = .ok s) : Tracks events s := by
  induction events using List.reverseRecOn generalizing s with
  | nil =>
    cases h
    exact .empty
  | append_singleton events e ih =>
    rw [foldlM_append, bind_eq_ok_iff] at h
    obtain ⟨before, hbefore, hlast⟩ := h
    rw [foldlM_cons, bind_eq_ok_iff] at hlast
    obtain ⟨after, hafter, hend⟩ := hlast
    cases hend
    exact (ih hbefore).snoc hafter

/-! ## An id that has left -/

theorem left_stays (hs : s.Inv) (h : events.foldlM foldEvent s = .ok s') {id : String}
    (hseen : id ∈ s.seen) (hleft : id ∉ s.active.keys) : id ∉ s'.active.keys := by
  induction events generalizing s with
  | nil =>
    cases h
    exact hleft
  | cons e rest ih =>
    rw [foldlM_cons, bind_eq_ok_iff] at h
    obtain ⟨mid, hmid, hrest⟩ := h
    have hkept : id ∈ mid.seen ∧ id ∉ mid.active.keys := by
      rcases foldEvent_change hmid with ⟨-, rfl⟩ | ⟨change, -, -, hchange⟩
      · exact ⟨hseen, hleft⟩
      · rcases foldChange_keys hs hchange with ⟨schedule, -, hnew, hseen', hkeys⟩
          | ⟨-, -, hseen', hkeys⟩
        · rw [hseen', hkeys, mem_append, mem_append, mem_singleton]
          refine ⟨Or.inl hseen, ?_⟩
          -- a creation of it would be refused
          rintro (hold | rfl)
          · exact hleft hold
          · exact hnew hseen
        · exact ⟨hseen' ▸ hseen, fun hkey => hleft (hkeys.subset hkey)⟩
    exact ih (hs.event hmid) hrest hkept.1 hkept.2

variable {r : OneShotScheduleRecord} {acceptedAt : Option String}

theorem oneShot_leaves (hchange : change? e = some (.dispatch r.id acceptedAt))
    (hactive : s.active.lookup r.id = some (.oneShot r)) (h : foldEvent s e = .ok s') :
    s' = { s with active := s.active.erase r.id } := by
  rcases foldEvent_change h with ⟨hnone, -⟩ | ⟨change, hsome, -, hfold⟩
  · rw [hnone] at hchange
    cases hchange
  · cases hsome.symm.trans hchange
    rcases foldChange_ok hfold with ⟨_, hcreate, -⟩ | ⟨_, _, hdelete, -⟩
      | ⟨id, at_, record, next, hdispatch, hlookup, hnext, rfl⟩
    · cases hcreate
    · cases hdelete
    · cases hdispatch
      cases hlookup.symm.trans hactive
      rw [(dispatchedRecord_oneShot_iff.mp hnext).2]
      rfl

/-! ## Folding what the package wrote -/

structure WellFolded (seedLength : Nat) (log : List SessionEvent) (folded : FoldedSchedules) : Prop where
  /-- The ids seen are those created. -/
  seen : folded.seenIds = createdIds (log.drop seedLength)
  /-- No id is given to two schedules. -/
  unique : (createdIds (log.drop seedLength)).Nodup
  /-- The active records stand in the order of their creation. -/
  order : (folded.active.map ScheduleRecord.id).Sublist (createdIds (log.drop seedLength))
  /-- The next id is new to every event. -/
  fresh : ¬ Uses (log.drop seedLength) (allocateScheduleId folded)

theorem ids_eq_keys (hs : s.Inv) : (s.active.entries.map Prod.snd).map ScheduleRecord.id = s.active.keys := by
  rw [map_map]
  refine map_congr_left fun entry hentry => ?_
  exact hs.named entry.1 entry.2 (lookup_eq_some_iff.mpr hentry)

theorem Tracks.wellFolded (h : Tracks (log.drop seedLength) s) :
    WellFolded seedLength log { active := s.active.entries.map Prod.snd, seenIds := s.seen } := by
  refine ⟨h.seen, h.seen ▸ h.inv.nodup, ?_, fun hused => ?_⟩
  · rw [ids_eq_keys h.inv, ← h.seen]
    exact h.order
  · exact allocateScheduleId_fresh _ (h.used _ hused)

theorem Safe.wellFolded (h : Safe seedLength log) (hseed : seedLength ≤ log.length) (hsafe : IsSafe seedLength) :
    ∃ folded, foldScheduleEvents log seedLength = .ok folded ∧ WellFolded seedLength log folded := by
  obtain ⟨s, hs, -⟩ := (h log prefix_rfl hseed).folds
  refine ⟨_, ?_, (tracks_of_fold hs).wellFolded⟩
  rw [foldScheduleEvents_ok_iff]
  refine ⟨⟨hsafe, by omega, by omega⟩, s, ?_, rfl⟩
  rwa [Int.toNat_natCast]

theorem oneShot_gone {before after : List SessionEvent} (hseed : seedLength ≤ before.length)
    {folded folded' : FoldedSchedules} (hbefore : foldScheduleEvents before seedLength = .ok folded) (hactive : .oneShot r ∈ folded.active)
    (hchange : change? e = some (.dispatch r.id acceptedAt))
    (hlater : foldScheduleEvents (before ++ e :: after) seedLength = .ok folded') :
    r.id ∉ folded'.active.map ScheduleRecord.id := by
  obtain ⟨-, s, hs, rfl⟩ := foldScheduleEvents_ok_iff.mp hbefore
  obtain ⟨-, s', hs', rfl⟩ := foldScheduleEvents_ok_iff.mp hlater
  rw [Int.toNat_natCast] at hs hs'
  have hinv : s.Inv := (tracks_of_fold hs).inv
  have hfinal : s'.Inv := (tracks_of_fold hs').inv
  -- the record is listed under its id
  obtain ⟨⟨key, record⟩, hentry, heq⟩ := mem_map.mp hactive
  obtain rfl : record = .oneShot r := heq
  have hlookup : s.active.lookup key = some (.oneShot r) := lookup_eq_some_iff.mpr hentry
  obtain rfl : r.id = key := hinv.named key _ hlookup
  rw [foldSuffix, drop_append_of_le_length hseed, foldlM_append, bind_eq_ok_iff] at hs'
  obtain ⟨t, ht, hrest⟩ := hs'
  cases hs.symm.trans ht
  rw [foldlM_cons, bind_eq_ok_iff] at hrest
  obtain ⟨mid, hmid, hrest⟩ := hrest
  have hinv' : mid.Inv := hinv.event hmid
  obtain rfl := oneShot_leaves hchange hlookup hmid
  rw [ids_eq_keys hfinal]
  refine left_stays hinv' hrest (hinv.seen _ _ hlookup) ?_
  show r.id ∉ (s.active.erase r.id).keys
  rw [mem_keys_erase]
  exact fun hmem => hmem.1 rfl

/-- **Folding what the package wrote.**  Of every part of every log that has the seed, the fold succeeds, has seen the
ids of the creations once each, keeps the active records in creation order, and allocates an id new to the part; a
one-shot record is in no fold from its dispatch on. -/
theorem folds_what_was_written {s : Schedules} (h : Schedules.Reachable seedLength s) (hsafe : IsSafe seedLength) :
    (∀ durable, durable <+: s.log → seedLength ≤ durable.length →
        ∃ folded, foldScheduleEvents durable seedLength = .ok folded ∧ WellFolded seedLength durable folded)
      ∧ ∀ before e after folded folded' r acceptedAt, before ++ e :: after <+: s.log →
          seedLength ≤ before.length → foldScheduleEvents before seedLength = .ok folded →
          .oneShot r ∈ folded.active → change? e = some (.dispatch r.id acceptedAt) →
          foldScheduleEvents (before ++ e :: after) seedLength = .ok folded' →
          r.id ∉ folded'.active.map ScheduleRecord.id := by
  obtain ⟨-, -, hlog⟩ := h.safe
  constructor
  · intro durable hdurable hseed
    have hdurableSafe : Safe seedLength durable := fun shorter hshorter => hlog shorter (hshorter.trans hdurable)
    exact hdurableSafe.wellFolded hseed hsafe
  · intro before e after folded folded' r acceptedAt _ hseed hbefore hactive hchange hlater
    exact oneShot_gone hseed hbefore hactive hchange hlater

/-- The log of a reminder deleted while it was overdue. -/
theorem folds_what_was_written_deleted :
    ∃ folded, foldScheduleEvents deletedLog 0 = .ok folded ∧ WellFolded 0 deletedLog folded := by
  obtain ⟨s, hs, hlog⟩ := Option.map_eq_some_iff.mp log_deletedOverdue
  have hfold := (folds_what_was_written (reachable_schedulesAfter hs) (by decide)).1 s.log
    prefix_rfl (Nat.zero_le _)
  rwa [hlog] at hfold

end CocoHarness.Schedule
