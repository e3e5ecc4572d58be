/-
# CocoHarness.Schedule.Delivery — no reminder is lost at a crash point.

A reminder is delivered by two kinds of append: its message is spliced into the agent's inbox, and
only then is its dispatch recorded, which is what moves the schedule on.  So whatever prefix of the log
survives, an occurrence that came due is still outstanding in the fold of the prefix, or the prefix
holds a message that carries the reminder; a schedule that was deleted owes nothing.

`NoLoss` says this of one log.  Any one event keeps it that is a change the fold accepts and, where it
is a dispatch, finds its reminder in the log (`NoLoss.snoc`); every block of the runtime and the tools
appends such events only (`Grows`).
-/
import CocoHarness.Schedule.Runtime

namespace CocoHarness.Schedule

open Lib Lib.SafeInteger SessionLog Agent List Or InsertionMap

variable {seedLength : Nat} {log : List SessionEvent}

/-! ## What a log owes -/

def messageText? (value : Json) : Option String := do
  let content ← (field? (some value) "content").bind Json.arr?
  let block ← content.head?
  (field? (some block) "text").bind Json.str?

/-- The text carries the reminder of a record at an occurrence, by itself or as an entry of a batch. -/
def Frames (text : String) (o : Int) : ScheduleRecord → Prop
  | .oneShot r => text = renderReminderFraming r ∧ r.scheduledAt = toISOString o
  | .every r => ∃ reminders due, text = renderEveryReminderBatchFraming reminders ∧ due ∈ reminders
      ∧ due.record.id = r.id ∧ due.record.prompt = r.prompt ∧ due.occurrenceAt = toISOString o

/-- The event puts a message that carries the reminder into the inbox. -/
def Carries (e : SessionEvent) (r : ScheduleRecord) (o : Int) : Prop :=
  e.type = spliced ∧ ∃ splice, Splice.read? e.data = some splice ∧ ∃ m ∈ splice.inserted,
    ∃ text, messageText? m.value = some text ∧ Frames text o r

/-- The instants in range at which a record is to remind, from its target on. -/
def Occurs (o : Int) : ScheduleRecord → Prop
  | .oneShot r => InRange o ∧ r.scheduledAt = toISOString o
  | .every r => InRange o ∧ ∃ target, InRange target ∧ r.scheduledAt = toISOString target
      ∧ target ≤ o ∧ r.interval ∣ o - target

def CameDue (r : ScheduleRecord) (o now : Int) : Prop := Occurs o r ∧ o ≤ now

/-- The record is the one created, but for the target of a fixed-rate one. -/
def SameRule : ScheduleRecord → ScheduleRecord → Prop
  | .oneShot c, r => r = .oneShot c
  | .every c, r => ∃ scheduledAt, r = .every { c with scheduledAt }

def Outstanding (seedLength : Nat) (log : List SessionEvent) (c : ScheduleRecord) (o now : Int) : Prop :=
  ∃ s r, foldSuffix log seedLength = .ok s ∧ s.active.lookup c.id = some r ∧ SameRule c r ∧ CameDue r o now

/-- The log, after its seed, holds a message with the reminder, at that occurrence or, for a fixed rate, a later one.
-/
def Delivered (seedLength : Nat) (log : List SessionEvent) (c : ScheduleRecord) (o : Int) : Prop :=
  ∃ e ∈ log.drop seedLength, ∃ o', o ≤ o' ∧ Carries e c o'

def Deletes (seedLength : Nat) (log : List SessionEvent) (id : String) : Prop :=
  ∃ e ∈ log.drop seedLength, e.type = scheduleChange ∧ decodeScheduleChange e.data = .ok (.delete id)

/-- The log folds, and every occurrence of its schedules is outstanding, delivered, or off. -/
structure NoLoss (seedLength : Nat) (log : List SessionEvent) : Prop where
  folds : ∃ s, foldSuffix log seedLength = .ok s ∧ s.Inv ∧ ∀ c, Creates seedLength log c → c.id ∈ s.seen
  kept : ∀ c o now, Creates seedLength log c → CameDue c o now →
    Outstanding seedLength log c o now ∨ Delivered seedLength log c o ∨ Deletes seedLength log c.id

/-! ## One event -/

theorem SameRule.refl (c : ScheduleRecord) : SameRule c c := by
  cases c with
  | oneShot c => rfl
  | every c => exact ⟨c.scheduledAt, rfl⟩

variable {c r : ScheduleRecord} {e : SessionEvent} {o : Int}

theorem SameRule.carries (h : SameRule c r) (hcarries : Carries e r o) : Carries e c o := by
  cases c with
  | oneShot c =>
    obtain rfl : r = .oneShot c := h
    exact hcarries
  | every c =>
    obtain ⟨scheduledAt, rfl⟩ := h
    exact hcarries

theorem mem_drop_snoc (hseed : seedLength ≤ log.length) {d : SessionEvent} (e : SessionEvent)
    (h : d ∈ log.drop seedLength) : d ∈ (log ++ [e]).drop seedLength := by
  rw [drop_append_of_le_length hseed]
  exact mem_append_left _ h

theorem Delivered.snoc (h : Delivered seedLength log c o) (hseed : seedLength ≤ log.length)
    (e : SessionEvent) : Delivered seedLength (log ++ [e]) c o := by
  obtain ⟨e', hmem, hcarries⟩ := h
  exact ⟨e', mem_drop_snoc hseed e hmem, hcarries⟩

theorem Deletes.snoc {id : String} (h : Deletes seedLength log id) (hseed : seedLength ≤ log.length)
    (e : SessionEvent) : Deletes seedLength (log ++ [e]) id := by
  obtain ⟨e', hmem, hdelete⟩ := h
  exact ⟨e', mem_drop_snoc hseed e hmem, hdelete⟩

/-- The log holds the message of the reminder that a dispatch of the record is about. -/
def Reminded (seedLength : Nat) (log : List SessionEvent) (acceptedAt : Option String) : ScheduleRecord → Prop
  | .oneShot r => ∃ e ∈ log.drop seedLength, ∃ o, Carries e (.oneShot r) o
  | .every r => ∀ target text accepted, dateParse r.scheduledAt = some target →
      acceptedAt = some text → dateParse text = some accepted →
      ∃ e ∈ log.drop seedLength, Carries e (.every r) (latestDue target r.interval accepted)

/-- **What a dispatch takes off the record is in a message.** -/
theorem dispatched_or_outstanding (hvalid : r.Valid) {acceptedAt : Option String}
    {next : Option ScheduleRecord} (hnext : dispatchedRecord r acceptedAt = .ok next)
    (hreminded : Reminded seedLength log acceptedAt r) (ho : Occurs o r) :
    Delivered seedLength log r o ∨ ∃ r', next = some r' ∧ SameRule r r' ∧ Occurs o r' := by
  cases r with
  | oneShot r =>
    obtain ⟨e, hmem, o', hcarries⟩ := hreminded
    obtain ⟨htype, splice, hread, m, hm, text, htext, hframe, hinstant⟩ := hcarries
    refine inl ⟨e, hmem, o, le_refl o, htype, splice, hread, m, hm, text, htext, hframe, ho.2⟩
  | every r =>
    obtain ⟨hrange, target, htarget, hscheduled, hle, hdvd⟩ := ho
    obtain ⟨text, accepted, rfl, hparse, haccepted, hdue, hafter⟩ :=
      (dispatchedRecord_every_iff hvalid htarget hscheduled).mp hnext
    have hleast : 300000 ≤ r.interval := hvalid.interval.2
    have hpos : 0 < r.interval := by omega
    by_cases hlate : o ≤ latestDue target r.interval accepted
    · obtain ⟨e, hmem, hcarries⟩ := hreminded target text accepted
        (by rw [hscheduled, dateParse_toISOString htarget]) rfl hparse
      exact inl ⟨e, hmem, _, hlate, hcarries⟩
    · -- an occurrence after the latest due one is at least one interval after it
      have hgap : r.interval ∣ o - latestDue target r.interval accepted := by
        have hstep : r.interval ∣ latestDue target r.interval accepted - target := dvd_latestDue_sub
        have := Int.dvd_sub hdvd hstep
        rwa [show o - target - (latestDue target r.interval accepted - target)
          = o - latestDue target r.interval accepted by omega] at this
      have hfar := Int.le_of_dvd (by omega) hgap
      have hin := inRange_latestDue hpos htarget haccepted hdue
      have hnextRange : InRange (latestDue target r.interval accepted + r.interval) :=
        ⟨by have := hin.1; omega, by have := hrange.2; omega⟩
      refine inr ⟨_, ?_, ⟨toISOString (latestDue target r.interval accepted + r.interval), rfl⟩,
        hrange, _, hnextRange, rfl, by omega, ?_⟩
      · rw [hafter, EveryScheduleRecord.after, if_neg (by have := hnextRange.2; omega)]
      · have := Int.dvd_sub hgap (Int.dvd_refl r.interval)
        rwa [show o - latestDue target r.interval accepted - r.interval
          = o - (latestDue target r.interval accepted + r.interval) by omega] at this

theorem SameRule.trans {a b : ScheduleRecord} (hab : SameRule a b) (hbc : SameRule b c) : SameRule a c := by
  cases a with
  | oneShot a =>
    obtain rfl : b = .oneShot a := hab
    exact hbc
  | every a =>
    obtain ⟨_, rfl⟩ := hab
    obtain ⟨scheduledAt, rfl⟩ := hbc
    exact ⟨scheduledAt, rfl⟩

variable {s : FoldState}

/-- **The step lemma.**  An accepted event, with its reminder in the log if it is a dispatch, loses nothing. -/
theorem NoLoss.snoc (h : NoLoss seedLength log) (hseed : seedLength ≤ log.length) {s' : FoldState}
    (hfold : foldSuffix log seedLength = .ok s) (hevent : foldEvent s e = .ok s')
    (hreminded : ∀ id acceptedAt record, e.type = scheduleChange →
      decodeScheduleChange e.data = .ok (.dispatch id acceptedAt) →
      s.active.lookup id = some record → Reminded seedLength log acceptedAt record) :
    NoLoss seedLength (log ++ [e]) := by
  obtain ⟨t, ht, hinv, hseen⟩ := h.folds
  cases hfold.symm.trans ht
  have hfold' : foldSuffix (log ++ [e]) seedLength = .ok s' := by rw [foldSuffix_snoc hseed, hfold, ok_bind, hevent]
  -- what held of the log before still does, where the record is not touched
  have hkeep : ∀ c o now, Creates seedLength log c → CameDue c o now →
      (∀ r, s.active.lookup c.id = some r → SameRule c r → CameDue r o now →
        Outstanding seedLength (log ++ [e]) c o now ∨ Delivered seedLength (log ++ [e]) c o
          ∨ Deletes seedLength (log ++ [e]) c.id) →
      Outstanding seedLength (log ++ [e]) c o now ∨ Delivered seedLength (log ++ [e]) c o
        ∨ Deletes seedLength (log ++ [e]) c.id := by
    intro c o now hcreates hdue hactive
    rcases h.kept c o now hcreates hdue with ⟨u, r, hu, hr, hsame, hout⟩ | hdelivered | hdeleted
    · cases hfold.symm.trans hu
      exact hactive r hr hsame hout
    · exact inr (inl (hdelivered.snoc hseed e))
    · exact inr (inr (hdeleted.snoc hseed e))
  rcases foldEvent_ok hevent with ⟨htype, rfl⟩ | ⟨htype, change, hdata, hchange⟩
  · have hold : ∀ c, Creates seedLength (log ++ [e]) c → Creates seedLength log c := by
      intro c hcreates
      rcases creates_snoc_cases hseed hcreates with hold | ⟨hnew, -⟩
      · exact hold
      · exact absurd hnew htype
    refine ⟨⟨s', hfold', hinv, fun c hcreates => hseen c (hold c hcreates)⟩, ?_⟩
    intro c o now hcreates hdue
    exact hkeep c o now (hold c hcreates) hdue fun r hr hsame hout => inl ⟨s', r, hfold', hr, hsame, hout⟩
  · have hinv' := hinv.event hevent
    rcases foldChange_ok hchange with ⟨schedule, rfl, hnew, rfl⟩ | ⟨gone, record, rfl, hactive, rfl⟩
      | ⟨named, acceptedAt, record, next, rfl, hactive, hnext, rfl⟩
    · have hold : ∀ c, Creates seedLength (log ++ [e]) c → Creates seedLength log c ∨ c = schedule := by
        intro c hcreates
        rcases creates_snoc_cases hseed hcreates with hold | ⟨-, hcreate⟩
        · exact inl hold
        · exact inr (ScheduleChange.create.inj (Except.ok.inj (hdata.symm.trans hcreate))).symm
      refine ⟨⟨_, hfold', hinv', fun c hcreates => ?_⟩, ?_⟩
      · rcases hold c hcreates with hcreates | rfl
        · exact mem_append_left _ (hseen c hcreates)
        · exact mem_append_right _ (mem_singleton.mpr rfl)
      · intro c o now hcreates hdue
        rcases hold c hcreates with hcreates | rfl
        · refine hkeep c o now hcreates hdue fun r hr hsame hout => inl ⟨_, r, hfold', ?_, hsame, hout⟩
          have hother : c.id ≠ schedule.id := fun heq => hnew (heq ▸ hseen c hcreates)
          rw [lookup_set, if_neg hother]
          exact hr
        · exact inl ⟨_, c, hfold', by rw [lookup_set, if_pos rfl], .refl c, hdue⟩
    · have hold : ∀ c, Creates seedLength (log ++ [e]) c → Creates seedLength log c := by
        intro c hcreates
        rcases creates_snoc_cases hseed hcreates with hold | ⟨-, hcreate⟩
        · exact hold
        · cases hdata.symm.trans hcreate
      refine ⟨⟨_, hfold', hinv', fun c hcreates => hseen c (hold c hcreates)⟩, ?_⟩
      intro c o now hcreates hdue
      by_cases hid : c.id = gone
      · refine inr (inr ⟨e, ?_, htype, hid ▸ hdata⟩)
        rw [drop_append_of_le_length hseed]
        exact mem_append_right _ (mem_singleton.mpr rfl)
      · refine hkeep c o now (hold c hcreates) hdue fun r hr hsame hout => inl ⟨_, r, hfold', ?_, hsame, hout⟩
        rw [lookup_erase, if_neg hid]
        exact hr
    · have hold : ∀ c, Creates seedLength (log ++ [e]) c → Creates seedLength log c := by
        intro c hcreates
        rcases creates_snoc_cases hseed hcreates with hold | ⟨-, hcreate⟩
        · exact hold
        · cases hdata.symm.trans hcreate
      refine ⟨⟨_, hfold', hinv', fun c hcreates => hseen c (hold c hcreates)⟩, ?_⟩
      intro c o now hcreates hdue
      refine hkeep c o now (hold c hcreates) hdue fun r hr hsame hout => ?_
      by_cases hid : c.id = named
      · subst hid
        rw [hactive] at hr
        cases hr
        rcases dispatched_or_outstanding (hinv.valid _ _ hactive) hnext
          (hreminded _ _ _ htype hdata hactive) hout.1 with ⟨e', hmem, o', hlate, hcarries⟩
          | ⟨r', rfl, hrule, hoccurs⟩
        · exact inr (inl ⟨e', mem_drop_snoc hseed e hmem, o', hlate, hsame.carries hcarries⟩)
        · refine inl ⟨_, r', hfold', ?_, hsame.trans hrule, hoccurs, hout.2⟩
          rw [Option.elim_some, lookup_set, if_pos rfl]
      · refine inl ⟨_, r, hfold', ?_, hsame, hout⟩
        cases next with
        | none => rw [Option.elim_none, lookup_erase, if_neg hid]; exact hr
        | some next => rw [Option.elim_some, lookup_set, if_neg hid]; exact hr

/-! ## How a log grows -/

def Safe (seedLength : Nat) (log : List SessionEvent) : Prop :=
  ∀ durable, durable <+: log → seedLength ≤ durable.length → NoLoss seedLength durable

theorem Safe.snoc (h : Safe seedLength log) (hlast : NoLoss seedLength (log ++ [e])) :
    Safe seedLength (log ++ [e]) := by
  intro durable hpre hseed
  rcases prefix_concat_iff.mp hpre with rfl | hpre
  · exact hlast
  · exact h durable hpre hseed

/-- The log grows by events of others, and by accepted changes whose reminder the log has already. -/
inductive Grows (seedLength : Nat) : List SessionEvent → List SessionEvent → Prop
  | refl (log : List SessionEvent) : Grows seedLength log log
  | foreign {log mid : List SessionEvent} {e : SessionEvent} : Grows seedLength log mid →
      e.type ≠ scheduleChange → Grows seedLength log (mid ++ [e])
  | change {log mid : List SessionEvent} {e : SessionEvent} {change : ScheduleChange}
      {s s' : FoldState} : Grows seedLength log mid → e.type = scheduleChange →
      decodeScheduleChange e.data = .ok change → foldSuffix mid seedLength = .ok s →
      foldChange s change = .ok s' →
      (∀ id acceptedAt record, change = .dispatch id acceptedAt → s.active.lookup id = some record →
        Reminded seedLength mid acceptedAt record) →
      Grows seedLength log (mid ++ [e])

variable {log' : List SessionEvent}

theorem Grows.hasPrefix (h : Grows seedLength log log') : log <+: log' := by
  induction h with
  | refl => exact prefix_rfl
  | foreign _ _ ih | change _ _ _ _ _ _ ih => exact ih.trans (prefix_append _ _)

theorem Grows.trans {mid : List SessionEvent} (h : Grows seedLength log mid)
    (h' : Grows seedLength mid log') : Grows seedLength log log' := by
  induction h' with
  | refl => exact h
  | foreign _ htype ih => exact ih.foreign htype
  | change _ htype hdata hfold hchange hreminded ih => exact ih.change htype hdata hfold hchange hreminded

variable {es : List SessionEvent}

theorem Grows.append_foreign (h : ∀ e ∈ es, e.type ≠ scheduleChange) : Grows seedLength log (log ++ es) := by
  induction es using List.reverseRecOn with
  | nil =>
    rw [append_nil]
    exact .refl log
  | append_singleton es e ih =>
    rw [← append_assoc]
    exact (ih fun d hd => h d (mem_append_left _ hd)).foreign
      (h e (mem_append_right _ (mem_singleton.mpr rfl)))

/-- **What a log grows by loses nothing.** -/
theorem Grows.safe (h : Grows seedLength log log') (hseed : seedLength ≤ log.length)
    (hsafe : Safe seedLength log) : Safe seedLength log' := by
  induction h with
  | refl => exact hsafe
  | @foreign mid e hgrows htype ih =>
    have hmid : seedLength ≤ mid.length := hseed.trans hgrows.hasPrefix.length_le
    have hlast := ih mid prefix_rfl hmid
    obtain ⟨s, hs, -⟩ := hlast.folds
    have hsame : foldEvent s e = .ok s := by
      rw [foldEvent, if_pos htype]
      rfl
    refine ih.snoc (hlast.snoc hmid hs hsame ?_)
    intro _ _ _ hown
    exact absurd hown htype
  | @change mid e change s s' hgrows htype hdata hs hchange hreminded ih =>
    have hmid : seedLength ≤ mid.length := hseed.trans hgrows.hasPrefix.length_le
    have hevent : foldEvent s e = .ok s' := by
      rw [foldEvent, if_neg (not_not.mpr htype), hdata]
      exact hchange
    refine ih.snoc ((ih mid prefix_rfl hmid).snoc hmid hs hevent ?_)
    intro id acceptedAt record _ hdispatch hactive
    exact hreminded id acceptedAt record (Except.ok.inj (hdata.symm.trans hdispatch)) hactive

theorem foldlM_foreign (h : ∀ e ∈ es, e.type ≠ scheduleChange) : es.foldlM foldEvent s = .ok s := by
  induction es with
  | nil => rfl
  | cons e es ih =>
    rw [foldlM_cons, foldEvent, if_pos (h e mem_cons_self)]
    exact ih fun d hd => h d (mem_cons_of_mem e hd)

theorem foldSuffix_foreign (hseed : seedLength ≤ log.length) (h : ∀ e ∈ es, e.type ≠ scheduleChange) :
    foldSuffix (log ++ es) seedLength = foldSuffix log seedLength := by
  rw [foldSuffix, drop_append_of_le_length hseed, foldlM_append]
  cases hfold : (log.drop seedLength).foldlM foldEvent {} with
  | error error =>
    rw [foldSuffix, hfold]
    rfl
  | ok s => rw [foldSuffix, hfold, ok_bind, foldlM_foreign h]

/-! ## The inbox and the log -/

variable {inbox inbox' : Inbox} {p : Publication}
  {target : InboxTarget} {start deleteCount : JsNumber} {inserted : List UserMessage} {discard : Bool}
  {result : Except JsError (List Pending)}

theorem mutate_log (hs : inbox.session.Reachable)
    (h : inbox.mutate target start deleteCount inserted discard p = (inbox', result)) :
    inbox'.session.Reachable ∧ (eventsOf inbox'.session.log = eventsOf inbox.session.log
        ∨ ∃ event, event.type = spliced ∧ eventsOf inbox'.session.log = eventsOf inbox.session.log ++ [event]) := by
  rw [Inbox.mutate] at h
  dsimp only at h
  split at h
  · cases h
    exact ⟨hs, inl rfl⟩
  · split at h
    · cases h
      exact ⟨hs, inl rfl⟩
    · split at h
      · next happend =>
        cases h
        exact ⟨reachable_of_append hs happend, inl (hs.append_error happend)⟩
      · next session event happend =>
        cases h
        obtain ⟨hlog, htype, -⟩ := hs.append_ok happend
        exact ⟨reachable_of_append hs happend, inr ⟨event.event, htype, hlog⟩⟩

/-- The session stays reachable, and the log grows by events of others only. -/
def GrowsForeign (inbox inbox' : Inbox) : Prop :=
  inbox'.session.Reachable ∧ ∃ es, (∀ e ∈ es, e.type ≠ scheduleChange)
    ∧ eventsOf inbox'.session.log = eventsOf inbox.session.log ++ es

theorem GrowsForeign.refl (hs : inbox.session.Reachable) : GrowsForeign inbox inbox :=
  ⟨hs, [], forall_mem_nil _, (append_nil _).symm⟩

theorem GrowsForeign.trans {mid : Inbox} (h : GrowsForeign inbox mid) (h' : GrowsForeign mid inbox') :
    GrowsForeign inbox inbox' := by
  obtain ⟨-, es, hes, hlog⟩ := h
  obtain ⟨hs, es', hes', hlog'⟩ := h'
  refine ⟨hs, es ++ es', fun e he => ?_, by rw [hlog', hlog, append_assoc]⟩
  rcases mem_append.mp he with he | he
  · exact hes e he
  · exact hes' e he

theorem spliced_ne : spliced ≠ scheduleChange := by decide

theorem mutate_growsForeign (hs : inbox.session.Reachable)
    (h : inbox.mutate target start deleteCount inserted discard p = (inbox', result)) :
    GrowsForeign inbox inbox' := by
  obtain ⟨hs', hlog | ⟨event, htype, hlog⟩⟩ := mutate_log hs h
  · exact ⟨hs', [], forall_mem_nil _, by rw [hlog, append_nil]⟩
  · exact ⟨hs', [event], fun e he => by
      rw [mem_singleton.mp he, htype]
      exact spliced_ne, hlog⟩

/-- **Work of others adds events of others.** -/
theorem inboxStep_growsForeign (hs : inbox.session.Reachable) {op : InboxOp} (hop : ForeignOp op) :
    GrowsForeign inbox (inboxStep inbox op).1 := by
  cases op with
  | splice target start deleteCount inserted p | append target message p | prepend target message p =>
    exact mutate_growsForeign hs Prod.mk.eta.symm
  | replace id message p =>
    rw [inboxStep, Inbox.replace]
    split
    · exact .refl hs
    · exact mutate_growsForeign hs Prod.mk.eta.symm
  | remove id p =>
    rw [inboxStep, Inbox.remove]
    split
    · exact .refl hs
    · exact mutate_growsForeign hs Prod.mk.eta.symm
  | clear p q =>
    rw [inboxStep, Inbox.clear]
    split
    · next hfirst => exact mutate_growsForeign hs hfirst
    · next hfirst =>
      have hgrows := mutate_growsForeign hs hfirst
      exact hgrows.trans (mutate_growsForeign hgrows.1 Prod.mk.eta.symm)
  | claim target p q =>
    rw [inboxStep, Inbox.claim]
    split
    · next hfirst => exact mutate_growsForeign hs hfirst
    · next hfirst =>
      have hgrows := mutate_growsForeign hs hfirst
      split
      · exact hgrows
      · split
        · next hsecond => exact hgrows.trans (mutate_growsForeign hgrows.1 hsecond)
        · next hsecond => exact hgrows.trans (mutate_growsForeign hgrows.1 hsecond)
  | session op other =>
    refine ⟨hs.step op, ?_⟩
    rcases hs.step_log op with hlog | ⟨request, listeners, event, rfl, htype, hlog⟩
    · exact ⟨[], forall_mem_nil _, by rw [append_nil]; exact hlog⟩
    · refine ⟨[event], fun e he => ?_, hlog⟩
      rw [mem_singleton.mp he, htype]
      exact hop

theorem foldl_growsForeign (ops : List { op : InboxOp // ForeignOp op }) (hs : inbox.session.Reachable) :
    GrowsForeign inbox (ops.foldl (fun inbox op => (inboxStep inbox op.1).1) inbox) := by
  induction ops generalizing inbox with
  | nil => exact .refl hs
  | cons op ops ih =>
    have hfirst := inboxStep_growsForeign hs op.2
    exact hfirst.trans (ih hfirst.1)

/-- **A queued message is in the log.** -/
theorem splice_logs_message (hs : inbox.session.Reachable) {id text : String} {removed : List Pending}
    (h : inbox.splice .nextTurn (.infinity false) (Inbox.position 0) [reminderMessage id text] p
      = (inbox', .ok removed)) :
    inbox'.session.Reachable ∧ ∃ event, event.type = spliced
      ∧ eventsOf inbox'.session.log = eventsOf inbox.session.log ++ [event]
      ∧ ∃ splice, Splice.read? event.data = some splice ∧ ∃ m ∈ splice.inserted, messageText? m.value = some text := by
  rw [Inbox.splice, Inbox.mutate] at h
  dsimp only at h
  rw [if_neg (by simp)] at h
  split at h
  · cases h
  · split at h
    · cases h
    · next session event happend =>
      cases h
      obtain ⟨hlog, htype, hdata⟩ := hs.append_ok happend
      obtain ⟨pending, values, hvalues, hvalue, -, hread⟩ := read_spliceData hdata
      refine ⟨reachable_of_append hs happend, event.event, htype, hlog, _, hread, ?_⟩
      have hsnapshot : snapshotElements ([reminderMessage id text].map UserMessage.toJs) = some [.obj [("id", .str id),
            ("content", .arr [.obj [("type", .str "text"), ("text", .str text)]]),
            ("source", .obj [("kind", .str "plugin"), ("plugin", .str "schedule")]),
            ("role", .str "user")]] := rfl
      rw [hsnapshot] at hvalues
      cases hvalues
      cases pending with
      | nil => cases hvalue
      | cons m rest =>
        refine ⟨m, mem_cons_self, ?_⟩
        rw [(List.cons.inj hvalue).1]
        rfl

end CocoHarness.Schedule
