/-
# CocoHarness.Agent.InboxReplay — the lists of an inbox are the replay of its log.

The live path and the replay validate a splice separately: the live path before the event is appended,
on the identities the caller passed, and the replay on what the log holds.  What connects them is that
the data of an appended splice reads back as the splice it was made from (`read_spliceData`), so the
event a mutation commits is one the replay accepts, with the same lists as result
(`mutate_cases`).
-/
import CocoHarness.Agent.Inbox
import CocoHarness.SessionLog.LogGrowth

namespace CocoHarness.Agent

open Lib Lib.SafeInteger SessionLog List Option Inbox InboxState IntegerOrInfinity JsNumber

/-! ## Normalization is the language's -/

theorem integral_int (n : Int) : (Number.int n).integral = n := rfl

theorem actualStart_toNat (length : Nat) (start : JsNumber) :
    (actualStart length start).toNat = start.toIntegerOrInfinity.relativeIndex length := by
  match start with
  | .nan => rfl
  | .infinity true => rfl
  | .infinity false => rfl
  | .negZero => rfl
  | .finite (.int n) =>
    simp only [actualStart, trunc, toIntegerOrInfinity, relativeIndex, integral_int]
    split <;> simp only [ActualStart.toNat] <;> omega
  | .finite (.frac m p h) =>
    simp only [actualStart, trunc, toIntegerOrInfinity, relativeIndex]
    generalize (Number.frac m p h).integral = n
    by_cases hzero : n = 0 ∧ m < 0
    · simp [hzero, ActualStart.toNat]
    · rw [if_neg hzero]
      dsimp only
      split <;> simp only [ActualStart.toNat] <;> omega

theorem actualDeleteCount_eq (room : Nat) (deleteCount : JsNumber) :
    actualDeleteCount room deleteCount = deleteCount.toIntegerOrInfinity.clampCount room := by
  match deleteCount with
  | .nan => simp [actualDeleteCount, trunc, toIntegerOrInfinity, clampCount]
  | .infinity true => rfl
  | .infinity false => rfl
  | .negZero => simp [actualDeleteCount, trunc, toIntegerOrInfinity, clampCount]
  | .finite (.int n) =>
    simp only [actualDeleteCount, trunc, toIntegerOrInfinity, clampCount, integral_int]
    omega
  | .finite (.frac m p h) =>
    simp only [actualDeleteCount, trunc, toIntegerOrInfinity, clampCount]
    generalize (Number.frac m p h).integral = n
    by_cases hzero : n = 0 ∧ m < 0
    · simp [hzero]
    · rw [if_neg hzero]
      dsimp only
      omega

/-! ## The data of a splice reads back -/

theorem read_message {message : UserMessage} {value : Json} (h : snapshotJsonValue message.toJs = some value) :
    ∃ pending, Pending.read? value = some pending ∧ pending.value = value ∧ pending.id = message.id := by
  obtain ⟨fields, hfields, rfl⟩ := map_eq_some_iff.mp h
  simp only [snapshotFields, snapshotJsonValue, bind_eq_bind, bind_some] at hfields
  have hlookup := lookup_snapshotFields hfields message.own
  rw [JsonText.lookup_setField, if_pos rfl] at hlookup
  have hid : messageId? (.obj fields) = some message.id := by simp [messageId?, field?, hlookup, Json.str?]
  refine ⟨⟨.obj fields, message.id, hid⟩, ?_, rfl, rfl⟩
  rw [Pending.read?]
  split
  · next id hsome =>
    cases hsome.symm.trans hid
    rfl
  · next hnone =>
    rw [hid] at hnone
    cases hnone

theorem read_messages {messages : List UserMessage} {values : List Json}
    (h : snapshotElements (messages.map UserMessage.toJs) = some values) :
    ∃ pending, values.mapM Pending.read? = some pending ∧ pending.map Pending.value = values
      ∧ pending.map Pending.id = messages.map UserMessage.id := by
  induction messages generalizing values with
  | nil =>
    cases h
    exact ⟨[], rfl, rfl, rfl⟩
  | cons message messages ih =>
    simp only [map_cons, snapshotElements, bind_eq_bind, bind_eq_some_iff, map_eq_some_iff] at h
    obtain ⟨value, hvalue, values, hvalues, rfl⟩ := h
    obtain ⟨pending, hread, hpvalue, hpid⟩ := read_message hvalue
    obtain ⟨rest, hrest, hrvalue, hrid⟩ := ih hvalues
    exact ⟨pending :: rest, by simp [mapM_cons, hread, hrest], by simp [hpvalue, hrvalue],
      by simp [hpid, hrid]⟩

theorem InboxTarget.read?_text (target : InboxTarget) : InboxTarget.read? target.text = some target := by
  cases target <;> rfl

variable {target : InboxTarget} {inserted : List UserMessage}

/-- **The data of an appended splice reads back** as the splice it was made from. -/
theorem read_spliceData {start : ActualStart} {count : Nat} {canceled : Bool} {data : Json}
    (h : snapshotJsonValue (spliceData target start count inserted canceled) = some data) :
    ∃ pending values, snapshotElements (inserted.map UserMessage.toJs) = some values
      ∧ pending.map Pending.value = values
      ∧ pending.map Pending.id = inserted.map UserMessage.id
      ∧ Splice.read? data = some { target, start := .int start.toNat
                                   removedCount := if count = 0 then none else some (.int count)
                                   inserted := pending, canceled } := by
  cases start with
  | negZero => simp [spliceData, snapshotJsonValue, snapshotFields, ActualStart.toJs] at h
  | position n =>
    simp only [spliceData, snapshotJsonValue, ActualStart.toJs, cons_append, nil_append,
      snapshotFields, bind_eq_bind, bind_some, map_eq_some_iff] at h
    obtain ⟨fields, hfields, rfl⟩ := h
    by_cases hcount : count = 0 <;> cases canceled <;>
      simp only [hcount, if_true, if_false, Bool.false_eq_true, cons_append, nil_append,
        append_nil, snapshotFields, snapshotJsonValue, bind_eq_bind, bind_some,
        bind_eq_some_iff, map_eq_some_iff, Option.some.injEq] at hfields <;>
      obtain ⟨_, ⟨values, hvalues, rfl⟩, rfl⟩ := hfields <;>
      obtain ⟨pending, hread, hvalue, hid⟩ := read_messages hvalues <;>
      refine ⟨pending, values, hvalues, hvalue, hid, ?_⟩ <;>
      simp [Splice.read?, field?, JsonText.lookup_setField, Json.str?, Json.num?, Json.arr?,
        InboxTarget.read?_text, hread, hcount, ActualStart.toNat]

/-! ## Validation -/

namespace InboxState

variable {s s' : InboxState}

theorem checkIds_ok_iff (seen ids : List String) : checkIds seen ids = .ok () ↔ ids.Nodup ∧ ∀ id ∈ ids, id ∉ seen := by
  induction ids generalizing seen with
  | nil => simp [checkIds]
  | cons id ids ih =>
    rw [checkIds]
    split
    · next hseen =>
      simp only [reduceCtorEq, false_iff, not_and]
      exact fun _ hfresh => hfresh id mem_cons_self hseen
    · next hfresh =>
      rw [ih, nodup_cons]
      constructor
      · rintro ⟨hnodup, hnew⟩
        refine ⟨⟨fun hmem => hnew id hmem mem_cons_self, hnodup⟩, fun x hx => ?_⟩
        rcases mem_cons.mp hx with rfl | hx
        · exact hfresh
        · exact fun hseen => hnew x hx (mem_cons_of_mem _ hseen)
      · rintro ⟨⟨hid, hnodup⟩, hnew⟩
        refine ⟨hnodup, fun x hx hseen => ?_⟩
        rcases mem_cons.mp hseen with rfl | hseen
        · exact hid hx
        · exact hnew x (mem_cons_of_mem _ hx) hseen

@[simp] theorem get_set (s : InboxState) (messages : List Pending) (target : InboxTarget) :
    (s.set messages target).get target = messages := by cases target <;> rfl

theorem candidateIds_eq (s : InboxState) (target : InboxTarget) (position count : Nat) (inserted : List Pending) :
    s.candidateIds target position count (inserted.map Pending.id)
      = (s.set (cut (s.get target) position count inserted).2 target).ids := by
  cases target <;> simp [candidateIds, ids, set, get, map_cut]

/-- What validation lets through: coordinates inside the list, and identities that stay distinct. -/
theorem validate_ok {start removedCount : Number} {inserted : List Pending}
    (h : s.validate target start removedCount (inserted.map Pending.id) = .ok ()) :
    ∃ position count : Nat, start = .int position ∧ removedCount = .int count
      ∧ position + count ≤ (s.get target).length
      ∧ (s.set (cut (s.get target) position count inserted).2 target).ids.Nodup := by
  unfold validate at h
  split at h
  · next start removed =>
    split at h
    · cases h
    · next hbounds =>
      simp only [not_or, not_lt] at hbounds
      obtain ⟨-, hstart, -, -, hremoved, hsum⟩ := hbounds
      rw [checkIds_ok_iff, candidateIds_eq] at h
      exact ⟨start.toNat, removed.toNat, by rw [Int.toNat_of_nonneg hstart],
        by rw [Int.toNat_of_nonneg hremoved], by omega, h.1⟩
  · cases h

variable {splice : Splice}

/-- **Applying a durable splice** cuts one list and keeps identities distinct. -/
theorem apply_ok (h : s.apply splice = .ok s') : ∃ position count : Nat, splice.start = .int position
      ∧ splice.removedCount.getD (.int 0) = .int count
      ∧ s' = s.set (cut (s.get splice.target) position count splice.inserted).2 splice.target
      ∧ s'.ids.Nodup := by
  rw [apply] at h
  split at h
  · cases h
  · next hvalid =>
    obtain ⟨position, count, hstart, hcount, -, hnodup⟩ := validate_ok hvalid
    rw [hstart, hcount] at h
    cases h
    exact ⟨position, count, hstart, hcount, rfl, hnodup⟩

theorem apply_of_validate {position count : Nat} (hstart : splice.start = .int position)
    (hcount : splice.removedCount.getD (.int 0) = .int count)
    (h : s.validate splice.target (.int position) (.int count) (splice.inserted.map Pending.id) = .ok ()) :
    s.apply splice = .ok (s.set (cut (s.get splice.target) position count splice.inserted).2 splice.target) := by
  rw [apply, hstart, hcount, h]
  rfl

variable {event : SessionEvent}

theorem replayEvent_of_read (htype : event.type = spliced)
    (hread : Splice.read? event.data = some splice) (happly : s.apply splice = .ok s') :
    s.replayEvent event = .ok s' := by
  rw [replayEvent, if_neg (not_not.mpr htype), hread]
  simp only [happly]

theorem replayEvent_other (htype : event.type ≠ spliced) : s.replayEvent event = .ok s := if_pos htype

theorem replayEvent_nodup (hs : s.ids.Nodup) (h : s.replayEvent event = .ok s') : s'.ids.Nodup := by
  rw [replayEvent] at h
  split at h
  · cases h
    exact hs
  · split at h
    · cases h
    · split at h
      · cases h
      · next happly =>
        cases h
        obtain ⟨_, _, _, _, _, hnodup⟩ := apply_ok happly
        exact hnodup

theorem replay_nodup {events : List SessionEvent} (hs : s.ids.Nodup)
    (h : events.foldlM replayEvent s = .ok s') : s'.ids.Nodup := by
  induction events generalizing s with
  | nil =>
    cases h
    exact hs
  | cons event events ih =>
    rw [foldlM_cons, bind_eq_ok_iff] at h
    obtain ⟨mid, hevent, hrest⟩ := h
    exact ih (replayEvent_nodup hs hevent) hrest

theorem replay_snoc {seedLength : Nat} {log : List SessionEvent} (hle : seedLength ≤ log.length)
    (h : replay seedLength log = .ok s) (event : SessionEvent) :
    replay seedLength (log ++ [event]) = s.replayEvent event := by
  rw [replay, drop_append_of_le_length hle, foldlM_append]
  rw [replay] at h
  rw [h]
  exact bind_pure (s.replayEvent event)

end InboxState

/-! ## What a mutation can do -/

/-- `after` is `before` with one list spliced as the language does it, with snapshots of the messages. -/
def SplicedAs (before after : InboxState) (target : InboxTarget) (start deleteCount : JsNumber)
    (inserted : List UserMessage) (removed : List Pending) : Prop :=
  ∃ pending : List Pending, snapshotElements (inserted.map UserMessage.toJs) = some (pending.map Pending.value)
      ∧ pending.map Pending.id = inserted.map UserMessage.id
      ∧ arraySplice (before.get target) start deleteCount pending = (removed, after.get target)
      ∧ after = before.set (after.get target) target

theorem set_get (s : InboxState) (target : InboxTarget) : s.set (s.get target) target = s := by cases target <;> rfl

theorem reachable_of_append {s s' : Session} (hs : s.Reachable) {request : AppendRequest}
    {listeners : Listeners} {result : Except JsError EventRef}
    (h : s.append request listeners = (s', result)) : s'.Reachable := by
  have hreach := hs.append request listeners
  rwa [h] at hreach

/-- **A mutation** fails and leaves the lists and the log alone; or it splices its list as the language does, and logs
the event that the replay takes to the same lists, if any. -/
theorem mutate_cases {inbox : Inbox} (hs : inbox.session.Reachable) (target : InboxTarget)
    (start deleteCount : JsNumber) (inserted : List UserMessage) (discardRemoved : Bool)
    (p : Publication) {inbox' : Inbox} {result : Except JsError (List Pending)}
    (h : inbox.mutate target start deleteCount inserted discardRemoved p = (inbox', result)) :
    inbox'.session.Reachable ∧ ((∃ e, result = .error e ∧ inbox'.state = inbox.state
          ∧ eventsOf inbox'.session.log = eventsOf inbox.session.log)
        ∨ ∃ removed, result = .ok removed
          ∧ SplicedAs inbox.state inbox'.state target start deleteCount inserted removed
          ∧ (inbox' = inbox ∨ ∃ event, eventsOf inbox'.session.log = eventsOf inbox.session.log ++ [event]
                ∧ inbox.state.replayEvent event = .ok inbox'.state)) := by
  rw [mutate] at h
  dsimp only at h
  set messages := inbox.state.get target with hmessages
  have hposition := actualStart_toNat messages.length start
  generalize actualStart messages.length start = actual at h hposition
  have hcut := actualDeleteCount_eq (messages.length - actual.toNat) deleteCount
  generalize actualDeleteCount (messages.length - actual.toNat) deleteCount = count at h hcut
  have hsplice : ∀ pending : List Pending,
      arraySplice messages start deleteCount pending = cut messages actual.toNat count pending := by
    intro pending
    rw [arraySplice, hcut, hposition]
  split at h
  · next hnothing =>
    cases h
    refine ⟨hs, .inr ⟨[], rfl, ⟨[], ?_, ?_, ?_, (set_get _ _).symm⟩, .inl rfl⟩⟩
    · rw [hnothing.2]
      rfl
    · rw [hnothing.2]
      rfl
    · rw [← hmessages, hsplice, hnothing.1, cut_nothing]
  · split at h
    · cases h
      exact ⟨hs, .inl ⟨_, rfl, rfl, rfl⟩⟩
    · next hvalid =>
      split at h
      · next session e happend =>
        cases h
        exact ⟨reachable_of_append hs happend, .inl ⟨e, rfl, rfl, hs.append_error happend⟩⟩
      · next session event happend =>
        cases h
        obtain ⟨hlog, htype, hdata⟩ := hs.append_ok happend
        obtain ⟨pending, values, hvalues, hvalue, hid, hread⟩ := read_spliceData hdata
        have hvalid' := hid ▸ hvalid
        have hcount : (if count = 0 then none else some (Number.int count)).getD (.int 0) = .int count := by
          split
          · next hzero =>
            subst hzero
            rfl
          · rfl
        have happly := apply_of_validate
          (s := inbox.state) (show Splice.start ⟨target, .int actual.toNat,
            if count = 0 then none else some (.int count), pending,
            discardRemoved && decide (0 < count)⟩ = _ from rfl) hcount hvalid'
        rw [hread]
        refine ⟨reachable_of_append hs happend, .inr ⟨_, rfl, ⟨pending, ?_, hid, ?_, ?_⟩, .inr
          ⟨event.event, hlog, replayEvent_of_read htype hread happly⟩⟩⟩
        · rw [hvalue, hvalues]
        · rw [← hmessages, hsplice, get_set]
          rfl
        · rw [get_set]

/-! ## Runs -/

def InboxOp.twoSplices : InboxOp → Bool
  | .clear _ _ => true
  | .claim .nextTurn _ _ => true
  | _ => false

/-- What holds of an inbox whose session's first `k` events are inherited. -/
structure Inbox.Inv (k : Nat) (inbox : Inbox) : Prop where
  session : inbox.session.Reachable
  since : k ≤ (eventsOf inbox.session.log).length
  replayed : InboxState.replay k (eventsOf inbox.session.log) = .ok inbox.state
  distinct : inbox.state.ids.Nodup

variable {k : Nat} {inbox inbox' : Inbox} {result : Except JsError (List Pending)}

theorem Inbox.Inv.snoc {event : SessionEvent} (h : inbox.Inv k) (hsession : inbox'.session.Reachable)
    (hlog : eventsOf inbox'.session.log = eventsOf inbox.session.log ++ [event])
    (hevent : inbox.state.replayEvent event = .ok inbox'.state) : inbox'.Inv k where
  session := hsession
  since := by
    rw [hlog, length_append]
    exact Nat.le_add_right_of_le h.since
  replayed := by rw [hlog, replay_snoc h.since h.replayed, hevent]
  distinct := replayEvent_nodup h.distinct hevent

theorem Inbox.Inv.same (h : inbox.Inv k) (hsession : inbox'.session.Reachable)
    (hlog : eventsOf inbox'.session.log = eventsOf inbox.session.log)
    (hstate : inbox'.state = inbox.state) : inbox'.Inv k where
  session := hsession
  since := hlog ▸ h.since
  replayed := by rw [hlog, hstate, h.replayed]
  distinct := hstate ▸ h.distinct

variable {start deleteCount : JsNumber} {p : Publication} {discardRemoved : Bool}

theorem Inbox.Inv.mutate (h : inbox.Inv k)
    (hmutate : inbox.mutate target start deleteCount inserted discardRemoved p = (inbox', result)) :
    inbox'.Inv k := by
  obtain ⟨hsession, ⟨e, -, hstate, hlog⟩ | ⟨removed, -, -, rfl | ⟨event, hlog, hevent⟩⟩⟩ :=
    mutate_cases h.session target start deleteCount inserted discardRemoved p hmutate
  · exact h.same hsession hlog hstate
  · exact h
  · exact h.snoc hsession hlog hevent

variable {e : JsError}

theorem mutate_error (hs : inbox.session.Reachable)
    (hmutate : inbox.mutate target start deleteCount inserted discardRemoved p = (inbox', .error e)) :
    inbox'.state = inbox.state ∧ eventsOf inbox'.session.log = eventsOf inbox.session.log := by
  obtain ⟨-, ⟨_, -, hsame⟩ | ⟨removed, hok, -⟩⟩ :=
    mutate_cases hs target start deleteCount inserted discardRemoved p hmutate
  · exact hsame
  · cases hok

/-- **The step lemma.** -/
theorem Inbox.Inv.step (h : inbox.Inv k) (op : InboxOp) : (inboxStep inbox op).1.Inv k := by
  cases op with
  | splice target start deleteCount inserted p => exact h.mutate rfl
  | append target message p =>
    rw [inboxStep, append, splice]
    exact h.mutate Prod.mk.eta.symm
  | prepend target message p =>
    rw [inboxStep, prepend, splice]
    exact h.mutate Prod.mk.eta.symm
  | replace id message p =>
    rw [inboxStep, Inbox.replace]
    split
    · exact h
    · exact h.mutate rfl
  | remove id p =>
    rw [inboxStep, remove]
    split
    · exact h
    · exact h.mutate rfl
  | clear p q =>
    rw [inboxStep, clear]
    split
    · next hfirst => exact h.mutate hfirst
    · next hfirst => exact (h.mutate hfirst).mutate rfl
  | claim target p q =>
    rw [inboxStep, claim]
    split
    · next hfirst => exact h.mutate hfirst
    · next hfirst =>
      split
      · exact h.mutate hfirst
      · split
        · next hsecond => exact (h.mutate hfirst).mutate hsecond
        · next hsecond => exact (h.mutate hfirst).mutate hsecond
  | session op other =>
    have hsession := h.session.step op
    rcases h.session.step_log op with hlog | ⟨request, listeners, event, rfl, htype, hlog⟩
    · exact h.same hsession hlog rfl
    · refine h.snoc hsession hlog (replayEvent_other ?_)
      rw [htype]
      exact other request listeners rfl

/-- **The run lemma.** -/
theorem Inbox.Inv.run (h : inbox.Inv k) (ops : List InboxOp) : (Machine.run inboxStep inbox ops).1.Inv k :=
  Machine.run_invariant (I := Inv k) (fun _ op hi => hi.step op) h ops

variable {session : Session} {seedLength : Nat}

theorem Inbox.Inv.create (hsession : session.Reachable) (hcreate : Inbox.create session seedLength = .ok inbox) :
    inbox.Inv (min seedLength (eventsOf session.log).length) := by
  rw [Inbox.create] at hcreate
  split at hcreate
  · cases hcreate
  · next state hreplay =>
    cases hcreate
    have hdrop : (eventsOf session.log).drop (min seedLength (eventsOf session.log).length)
        = (eventsOf session.log).drop seedLength := by
      rcases Nat.le_total seedLength (eventsOf session.log).length with hle | hle
      · rw [Nat.min_eq_left hle]
      · rw [Nat.min_eq_right hle, drop_length, drop_eq_nil_of_le hle]
    refine ⟨hsession, Nat.min_le_right _ _, ?_, replay_nodup (by simp [ids]) hreplay⟩
    rw [replay, hdrop]
    exact hreplay

theorem splicedAs_all {before after : InboxState} {removed : List Pending}
    (h : SplicedAs before after .nextStep (position 0) (position before.nextStep.length) []
      removed) : after.nextStep = [] ∧ after.nextTurn = before.nextTurn := by
  obtain ⟨pending, -, hid, hsplice, hafter⟩ := h
  obtain rfl : pending = [] := by simpa using hid
  have hlist : after.nextStep = [] := by
    have hcut := congrArg Prod.snd hsplice
    simp only [arraySplice, cut, InboxState.get, position, toIntegerOrInfinity,
      integral_int, relativeIndex, clampCount] at hcut
    simpa using hcut.symm
  refine ⟨hlist, ?_⟩
  rw [hafter]
  rfl

/-- Two splices in turn, of which the first took all next-step input and the second failed. -/
theorem second_error (hs : inbox.session.Reachable) {mid : Inbox} {discard discard' : Bool}
    {claimed : List Pending} {q : Publication}
    (hfirst : inbox.mutate .nextStep (position 0)
      (position inbox.state.nextStep.length) [] discard p = (mid, .ok claimed))
    (hsecond : mid.mutate target start deleteCount inserted discard' q = (inbox', .error e)) :
    (inbox'.state = inbox.state ∧ eventsOf inbox'.session.log = eventsOf inbox.session.log)
      ∨ inbox'.state.nextStep = [] ∧ inbox'.state.nextTurn = inbox.state.nextTurn
          ∧ ∃ event, eventsOf inbox'.session.log = eventsOf inbox.session.log ++ [event] := by
  obtain ⟨hmid, ⟨_, herror, -⟩ | ⟨removed, -, hspliced, hlogged⟩⟩ :=
    mutate_cases hs .nextStep _ _ [] discard p hfirst
  · cases herror
  · obtain ⟨hstate, hlog⟩ := mutate_error hmid hsecond
    rw [hstate, hlog]
    rcases hlogged with rfl | ⟨event, hlogged, -⟩
    · exact .inl ⟨rfl, rfl⟩
    · obtain ⟨hstep, hturn⟩ := splicedAs_all hspliced
      exact .inr ⟨hstep, hturn, event, hlogged⟩

/-- **A failing operation** leaves the lists and the log alone; of two splices the first may stand, which took all
next-step input. -/
theorem inboxStep_error (hs : inbox.session.Reachable) {op : InboxOp} (h : inboxStep inbox op = (inbox', .error e)) :
    (inbox'.state = inbox.state ∧ eventsOf inbox'.session.log = eventsOf inbox.session.log)
      ∨ op.twoSplices = true ∧ inbox'.state.nextStep = [] ∧ inbox'.state.nextTurn = inbox.state.nextTurn
          ∧ ∃ event, eventsOf inbox'.session.log = eventsOf inbox.session.log ++ [event] := by
  cases op with
  | splice target start deleteCount inserted p => exact .inl (mutate_error hs h)
  | append target message p =>
    rw [inboxStep, append] at h
    exact .inl (mutate_error hs h)
  | prepend target message p =>
    rw [inboxStep, prepend] at h
    exact .inl (mutate_error hs h)
  | replace id message p =>
    rw [inboxStep, Inbox.replace] at h
    split at h
    · cases (Prod.mk.inj h).2
    · exact .inl (mutate_error hs h)
  | remove id p =>
    rw [inboxStep, remove] at h
    split at h
    · cases (Prod.mk.inj h).2
    · exact .inl (mutate_error hs h)
  | clear p q =>
    rw [inboxStep, clear] at h
    split at h
    · next hfirst => exact .inl (mutate_error hs (hfirst.trans h))
    · next hfirst => exact (second_error hs hfirst h).imp_right fun hpartial => ⟨rfl, hpartial⟩
  | claim target p q =>
    rw [inboxStep, claim] at h
    split at h
    · next hfirst => exact .inl (mutate_error hs (hfirst.trans h))
    · next hfirst =>
      split at h
      · cases (Prod.mk.inj h).2
      · split at h
        · next hsecond => exact (second_error hs hfirst (hsecond.trans h)).imp_right fun hpartial => ⟨rfl, hpartial⟩
        · cases (Prod.mk.inj h).2
  | session op other => cases (Prod.mk.inj h).2

/-! ## Event sourcing -/

/-- **An inbox is its log.**  After any operations, thrown or not, its lists are the replay of the splices logged
since the seed, so constructing it again gives the same lists; identities are distinct across both; a splice that
returns has done what the language's splice does; and an operation that throws has left lists and log as they were,
or, of two splices, as after the first. -/
theorem inbox_event_sourced (hsession : session.Reachable)
    (hcreate : Inbox.create session seedLength = .ok inbox) (ops : List InboxOp) :
    let last := (Machine.run inboxStep inbox ops).1
    InboxState.replay (min seedLength session.log.length) (eventsOf last.session.log) = .ok last.state
      ∧ (seedLength ≤ session.log.length → Inbox.create last.session seedLength = .ok last)
      ∧ last.state.ids.Nodup
      ∧ (∀ target start deleteCount inserted p next removed,
          last.splice target start deleteCount inserted p = (next, .ok removed) →
          SplicedAs last.state next.state target start deleteCount inserted removed)
      ∧ ∀ op next e, inboxStep last op = (next, .error e) →
          (next.state = last.state ∧ eventsOf next.session.log = eventsOf last.session.log)
            ∨ op.twoSplices = true ∧ next.state.nextStep = [] ∧ next.state.nextTurn = last.state.nextTurn
                ∧ ∃ event, eventsOf next.session.log = eventsOf last.session.log ++ [event] := by
  intro last
  have hlast : last.Inv (min seedLength (eventsOf session.log).length) := (Inbox.Inv.create hsession hcreate).run ops
  rw [eventsOf_length] at hlast
  refine ⟨hlast.replayed, fun hle => ?_, hlast.distinct, ?_, fun op next e => inboxStep_error hlast.session⟩
  · have hreplayed := hlast.replayed
    rw [Nat.min_eq_left hle] at hreplayed
    rw [Inbox.create, hreplayed]
  · intro target start deleteCount inserted p next removed hsplice
    obtain ⟨-, ⟨_, herror, -⟩ | ⟨removed', hok, hspliced, -⟩⟩ :=
      mutate_cases hlast.session target start deleteCount inserted true p hsplice
    · cases herror
    · cases hok
      exact hspliced

def shortMessage (id : String) : UserMessage := { id, fields := [("role", .str "user")], own := by decide }

def quiet : Publication := { now := ⟨0, isSafe_zero⟩ }

/-- A fresh inbox that was sent one prompt and one piece of next-step input. -/
def inboxOfTwo : Inbox :=
  (Machine.run inboxStep { session := enteredSession, state := {} }
    [.append .nextTurn (shortMessage "a") quiet, .append .nextStep (shortMessage "b") quiet]).1

theorem inbox_event_sourced_of_two :
    inboxOfTwo.state.ids = ["a", "b"] ∧ Inbox.create inboxOfTwo.session 0 = .ok inboxOfTwo :=
  ⟨by decide +kernel, (inbox_event_sourced enteredSession_reachable
    (show Inbox.create enteredSession 0 = .ok _ from rfl) [.append .nextTurn (shortMessage "a") quiet, .append .nextStep (shortMessage "b") quiet]).2.1
      (Nat.zero_le _)⟩

/-- A listener vetoes the second splice of a clear: the next-step input is gone from the lists and the log. -/
theorem clear_vetoed_halfway : (inboxStep inboxOfTwo (.clear quiet { listeners := vetoing, now := ⟨0, by decide⟩ })).2
        = .error (.error "veto")
      ∧ (inboxStep inboxOfTwo (.clear quiet { listeners := vetoing, now := ⟨0, by decide⟩ })).1.state.ids = ["a"]
      ∧ (inboxStep inboxOfTwo (.clear quiet { listeners := vetoing, now := ⟨0, by decide⟩ })).1.session.log.length
        = inboxOfTwo.session.log.length + 1 := by
  refine ⟨?_, ?_, ?_⟩
  · rfl
  · decide +kernel
  · decide +kernel

end CocoHarness.Agent
