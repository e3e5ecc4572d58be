/-
# CocoHarness.Persistence.PreparationsSteps — every action keeps the pool invariant.

Loads, calls, commits, reservations and requests by id, each from the pieces it is made of, and
`Inv.step` over all of them.
-/
import CocoHarness.Persistence.PreparationsOps

namespace CocoHarness.Persistence

open Lib SessionLog Option Nat Function

namespace Preparations

variable {Source CommitState : Type} {s s' : Preparations Source CommitState} {e : Nat}

/-! ## What loads leave behind -/

structure KeepsLoads (s s' : Preparations Source CommitState) : Prop where
  count : s'.entryCount = s.entryCount
  loads : ∀ e, (s'.entry e).loads = (s.entry e).loads
  result : ∀ e, (s'.entry e).result = (s.entry e).result

theorem KeepsLoads.of_eq (hentry : s'.entry = s.entry) (hcount : s'.entryCount = s.entryCount) :
    KeepsLoads s s' := ⟨hcount, fun _ => by rw [hentry], fun _ => by rw [hentry]⟩

theorem KeepsLoads.trans {s'' : Preparations Source CommitState} (h : KeepsLoads s s')
    (h' : KeepsLoads s' s'') : KeepsLoads s s'' :=
  ⟨h'.count.trans h.count, fun e => (h'.loads e).trans (h.loads e), fun e => (h'.result e).trans (h.result e)⟩

theorem KeepsLoads.results (h : KeepsLoads s s')
    (hs : ∀ e, (s.entry e).loads = true ↔ e < s.entryCount ∧ (s.entry e).result = .pending) :
    ∀ e, (s'.entry e).loads = true ↔ e < s'.entryCount ∧ (s'.entry e).result = .pending := by
  intro e
  rw [h.loads, h.result, h.count]
  exact hs e

variable {f : PreparationEntry Source → PreparationEntry Source}

theorem keepsLoads_update (s : Preparations Source CommitState) (e : Nat)
    (hloads : ∀ entry, (f entry).loads = entry.loads)
    (hresult : ∀ entry, (f entry).result = entry.result) : KeepsLoads s (s.update e f) := by
  refine ⟨rfl, fun e' => ?_, fun e' => ?_⟩ <;> by_cases he : e' = e
  · subst he
    simp [update, hloads]
  · simp [update, he]
  · subst he
    simp [update, hresult]
  · simp [update, he]

theorem keepsLoads_settleReservation (s : Preparations Source CommitState) (e : Nat) :
    KeepsLoads s (s.settleReservation e) := by
  rw [settleReservation]
  split
  · exact .of_eq rfl rfl
  · exact (keepsLoads_update s e (f := fun entry => { entry with reservationSettled := none })
      (fun _ => rfl) (fun _ => rfl)).trans (.of_eq rfl rfl)

theorem keepsLoads_remove (s : Preparations Source CommitState) (e : Nat) : KeepsLoads s (s.remove e) := by
  cases hin : s.inTable e with
  | false =>
    rw [remove_of_out hin]
    exact .of_eq rfl rfl
  | true =>
    rw [remove_of_inTable hin]
    have hkeeps := keepsLoads_settleReservation { s with entries := s.entries.erase (s.entry e).id } e
    exact ⟨hkeeps.count, hkeeps.loads, hkeeps.result⟩

theorem keepsLoads_touch (s : Preparations Source CommitState) (e : Nat) : KeepsLoads s (s.touch e) := by
  unfold touch
  dsimp only
  split
  · exact .of_eq rfl rfl
  · split <;> exact .of_eq rfl rfl

theorem keepsLoads_makeReady (s : Preparations Source CommitState) (e : Nat) : KeepsLoads s (s.makeReady e) := by
  rw [makeReady]
  split
  · exact .of_eq rfl rfl
  · exact ((keepsLoads_update s e (f := fun entry => { entry with phase := .ready })
      (fun _ => rfl) (fun _ => rfl)).trans (keepsLoads_settleReservation _ e)).trans
      (keepsLoads_touch _ e)

/-! ## Calls -/

variable {c : Nat} {call : Call Source}

/-- A call that neither waits nor commits changes nothing for another's entry. -/
theorem EntryInv.setCall (h : s.EntryInv e) (hold : s.call c ≠ .committing e ∨ s.inTable e = false)
    (hnew : call ≠ .committing e)
    (hwaiting : ∀ p, call = .waiting e p → p < s.promiseCount ∧ (s.entry e).reservationSettled = some p) :
    (s.setCall c call).EntryInv e where
  held := h.held
  promise := h.promise
  waiting c' p hc := by
    by_cases heq : c' = c
    · subst heq
      simp only [Preparations.setCall, update_self] at hc
      obtain ⟨hlt, hforce⟩ := hwaiting p hc
      exact ⟨hlt, fun _ => hforce⟩
    · simp only [Preparations.setCall, update_of_ne heq] at hc
      exact h.waiting c' p hc
  loading := h.loading
  committing c' hc hin := by
    by_cases heq : c' = c
    · subst heq
      simp only [Preparations.setCall, update_self] at hc
      exact absurd hc hnew
    · simp only [Preparations.setCall, update_of_ne heq] at hc
      exact h.committing c' hc hin
  unique c₁ c₂ h₁ h₂ hin := by
    have hne : ∀ c', (s.setCall c call).call c' = .committing e → s.call c' = .committing e := by
      intro c' hc
      by_cases heq : c' = c
      · subst heq
        simp only [Preparations.setCall, update_self] at hc
        exact absurd hc hnew
      · simpa only [Preparations.setCall, update_of_ne heq] using hc
    exact h.unique c₁ c₂ (hne c₁ h₁) (hne c₂ h₂) hin
  committer hin hphase := by
    obtain ⟨c', hc⟩ := h.committer hin hphase
    refine ⟨c', ?_⟩
    have hne : c' ≠ c := by
      rintro rfl
      rcases hold with hold | hout
      · exact hold hc
      · have : s.inTable e = true := hin
        rw [hout] at this
        cases this
    simpa only [Preparations.setCall, update_of_ne hne] using hc
  reserved := h.reserved
  reservation := h.reservation

theorem Inv.setCall (hs : s.Inv) (he : e < s.entryCount) (hc : c < s.callCount)
    (habout : About (s.call c) e) (habout' : About call e) (h : (s.setCall c call).EntryInv e) :
    (s.setCall c call).Inv where
  toBase := hs.toBase.focus (focus_setCall habout habout' hc) he h
  ready := hs.ready
  results := hs.results

theorem Base.call_lt (hs : s.Base) (hc : (s.call c).target = some e) : c < s.callCount := by
  by_contra hle
  rw [hs.unusedCall c (not_lt.mp hle)] at hc
  cases hc

theorem about_of_target (h : call.target = some e) : About call e := by
  intro e' h'
  rw [h] at h'
  exact (Option.some.inj h').symm

theorem Inv.done (hs : s.Inv) (hc : (s.call c).target = some e)
    (hold : s.call c ≠ .committing e ∨ s.inTable e = false) (outcome : Outcome Source) :
    (s.setCall c (.done outcome)).Inv := by
  refine hs.setCall (hs.calls c e hc) (hs.call_lt hc) (about_of_target hc) (fun _ h => by cases h) ?_
  exact (hs.entryInv e).setCall hold (by simp) (fun _ h => by cases h)

/-! ## Operations on one entry -/

theorem Inv.remove (hs : s.Inv) (he : e < s.entryCount) : (s.remove e).Inv := by
  have hfocus := focus_remove s e
  have hkeeps := keepsLoads_remove s e
  obtain ⟨hinv, hout⟩ := (hs.entryInv e).loose.remove (hs.entryInv e).free
  have hbase := hs.toBase.focus hfocus (hkeeps.count ▸ he) hinv
  exact { hbase with
    ready := hfocus.ready_of_out hs.toBase hs.ready hbase hout
    results := hkeeps.results hs.results }

theorem remove_call (s : Preparations Source CommitState) (e : Nat) : (s.remove e).call = s.call := by
  cases hin : s.inTable e with
  | false => rw [remove_of_out hin]
  | true => rw [remove_of_inTable hin, settleReservation_eq]

theorem Inv.remove_done (hs : s.Inv) (hc : s.call c = .committing e) (outcome : Outcome Source) :
    ((s.remove e).setCall c (.done outcome)).Inv := by
  have hknown : e < s.entryCount := hs.calls c e (by rw [hc]; rfl)
  refine (hs.remove hknown).done (e := e) (by rw [remove_call, hc]; rfl) (.inr ?_) outcome
  exact ((hs.entryInv e).loose.remove (hs.entryInv e).free).2

theorem EntryInv.update (h : s.EntryInv e) (hid : ∀ entry, (f entry).id = entry.id)
    (hphase : ∀ entry, (f entry).phase = entry.phase) (hloads : ∀ entry, (f entry).loads = entry.loads)
    (hsettled : ∀ entry, (f entry).reservationSettled = entry.reservationSettled)
    (hreservation : ∀ entry, (f entry).reservation = entry.reservation) :
    (s.update e f).EntryInv e := by
  have hin : (s.update e f).inTable e = s.inTable e := by simp [inTable, Preparations.update, hid]
  have hentry : (s.update e f).entry e = f (s.entry e) := update_self ..
  constructor <;> simp only [hin, hentry, hphase, hloads, hsettled, hreservation]
  exacts [h.held, h.promise, h.waiting, h.loading, h.committing, h.unique, h.committer, h.reserved, h.reservation]

theorem Base.update (hs : s.Base) (he : e < s.entryCount) (hid : ∀ entry, (f entry).id = entry.id)
    (hphase : ∀ entry, (f entry).phase = entry.phase) (hloads : ∀ entry, (f entry).loads = entry.loads)
    (hsettled : ∀ entry, (f entry).reservationSettled = entry.reservationSettled)
    (hreservation : ∀ entry, (f entry).reservation = entry.reservation) :
    (s.update e f).Base ∧ (s.update e f).readyCount = s.readyCount := by
  have hfocus := focus_update s e hsettled hid
  have hbase := hs.focus hfocus he
    ((hs.entryInv e).update hid hphase hloads hsettled hreservation)
  refine ⟨hbase, ?_⟩
  have hin : (s.update e f).inTable e = s.inTable e := by simp [inTable, Preparations.update, hid]
  have hentry : (s.update e f).entry e = f (s.entry e) := update_self ..
  rw [hbase.readyCount_eq e, hs.readyCount_eq e, hfocus.othersReady, hin, hentry, hphase]

/-! ## Loads -/

def endLoad (s : Preparations Source CommitState) (e : Nat) : Preparations Source CommitState :=
  s.update e fun entry => { entry with loads := false }

theorem focus_endLoad (s : Preparations Source CommitState) (e : Nat) : Focus s (s.endLoad e) e :=
  focus_update s e (fun _ => rfl) fun _ => rfl

theorem inTable_endLoad (s : Preparations Source CommitState) (e : Nat) : (s.endLoad e).inTable e = s.inTable e := by
  simp [endLoad, inTable, update]

theorem endLoad_entry (s : Preparations Source CommitState) (e : Nat) :
    (s.endLoad e).entry e = { s.entry e with loads := false } := by
  simp [endLoad, update]

theorem Inv.endLoad_loose (hs : s.Inv) : (s.endLoad e).Loose e :=
  (hs.entryInv e).loose.update (fun _ => rfl) fun _ => .inl rfl

theorem Inv.settleLoad (hs : s.Inv) (he : e < s.entryCount) (hkeeps : KeepsLoads (s.endLoad e) s')
    (hbase : s'.Base) (hready : s'.readyCount ≤ s'.capacity) {result : LoadResult Source}
    (hresult : result ≠ .pending) : (s'.update e fun entry => { entry with result }).Inv := by
  have hknown : e < s'.entryCount := by
    rw [hkeeps.count]
    exact he
  obtain ⟨hbase, hcount⟩ := hbase.update hknown (f := fun entry => { entry with result }) (fun _ => rfl)
    (fun _ => rfl) (fun _ => rfl) (fun _ => rfl) (fun _ => rfl)
  refine { hbase with ready := hcount ▸ hready, results := fun e' => ?_ }
  by_cases hne : e' = e
  · subst hne
    simp [Preparations.update, hkeeps.loads, endLoad, hresult]
  · have hsame := hs.results e'
    simpa [Preparations.update, hne, hkeeps.loads, hkeeps.result, hkeeps.count, endLoad] using hsame

theorem Inv.loading (hs : s.Inv) (hloads : (s.entry e).loads = true) (hin : s.inTable e = true) :
    (s.entry e).reservation = none ∧ ∀ c, s.call c ≠ .committing e := by
  have hphase := ((hs.entryInv e).loading hin).mpr hloads
  refine ⟨?_, fun c hc => ?_⟩
  · rw [← not_isSome_iff_eq_none, ← (hs.entryInv e).reserved hin, hphase]
    simp
  · have := (hs.entryInv e).committing c hc hin
    rw [hphase] at this
    cases this

theorem Inv.loaded (hs : s.Inv) (he : e < s.entryCount) (hloads : (s.entry e).loads = true)
    (source : Source) : (s.loaded e source).Inv := by
  have hdef : s.loaded e source = (if (s.endLoad e).inTable e = true then
      ((s.endLoad e).update e fun entry => { entry with source := some source }).makeReady e
      else s.endLoad e).update e fun entry => { entry with result := .resolved source } := rfl
  rw [hdef, inTable_endLoad]
  cases hin : s.inTable e with
  | false =>
    have hbase := hs.toBase.focus (focus_endLoad s e) he (hs.endLoad_loose.out
      (by rw [inTable_endLoad, hin]) (by rw [endLoad_entry]; exact (hs.entryInv e).free hin))
    exact hs.settleLoad he (.of_eq rfl rfl) hbase
      ((focus_endLoad s e).ready_of_out hs.toBase hs.ready hbase (by rw [inTable_endLoad, hin])) (by simp)
  | true =>
    obtain ⟨hnone, hcalls⟩ := hs.loading hloads hin
    have hsource := focus_update (s.endLoad e) e (f := fun entry => { entry with source := some source })
      (fun _ => rfl) (fun _ => rfl)
    have hkeeps := (keepsLoads_update (s.endLoad e) e
      (f := fun entry => { entry with source := some source }) (fun _ => rfl) (fun _ => rfl)).trans
      (keepsLoads_makeReady _ e)
    obtain ⟨hbase, hready⟩ := hs.toBase.makeReady hs.ready ((focus_endLoad s e).trans hsource) he
      (hs.endLoad_loose.update (fun _ => rfl) fun _ => .inl rfl)
      (fun hout => by
        have : s.inTable e = false := by simpa [update, endLoad, inTable] using hout
        rw [hin] at this
        cases this)
      (fun _ => ⟨by simp [update, endLoad], by simp [update, endLoad, hnone], hcalls⟩)
    exact hs.settleLoad he hkeeps hbase hready (by simp)

theorem Inv.loadFailed (hs : s.Inv) (he : e < s.entryCount) (reason : JsError) : (s.loadFailed e reason).Inv := by
  have hdef : s.loadFailed e reason
      = ((s.endLoad e).remove e).update e fun entry => { entry with result := .rejected reason } := rfl
  have hfree : (s.endLoad e).inTable e = false → ((s.endLoad e).entry e).reservationSettled = none := by
    rw [inTable_endLoad, endLoad_entry]
    exact (hs.entryInv e).free
  obtain ⟨hinv, hout⟩ := hs.endLoad_loose.remove hfree
  have hfocus := (focus_endLoad s e).trans (focus_remove _ e)
  have hkeeps := keepsLoads_remove (s.endLoad e) e
  have hbase := hs.toBase.focus hfocus (by rw [hkeeps.count]; exact he) hinv
  rw [hdef]
  exact hs.settleLoad he hkeeps hbase (hfocus.ready_of_out hs.toBase hs.ready hbase hout) (by simp)

/-! ## Starting a call -/

def fresh (s : Preparations Source CommitState) (id : String) : Preparations Source CommitState :=
  { s with
    entries := s.entries.set id s.entryCount
    entry := Function.update s.entry s.entryCount { id }
    entryCount := s.entryCount + 1 }

theorem fresh_entry (s : Preparations Source CommitState) (id : String) :
    (s.fresh id).entry s.entryCount = { id } := update_self ..

theorem focus_fresh (hs : s.Base) {id : String} (hnone : s.entries.lookup id = none) :
    Focus s (s.fresh id) s.entryCount where
  entry e' hne := update_of_ne hne _ _
  others := by
    rw [fresh, InsertionMap.entries_set_of_lookup_none hnone, List.filter_append]
    simp
  call _ := .inl rfl
  settled _ := .inl rfl
  taken p hp := by
    rw [fresh_entry] at hp
    cases hp
  reservation _ := .inl rfl
  promises := le_rfl
  calls := le_rfl
  reservations := le_rfl
  entries e' hne := by
    show e' < s.entryCount + 1 ↔ e' < s.entryCount
    omega
  counted := le_succ _
  named _ id' hlookup := by
    rw [fresh_entry]
    rw [fresh, InsertionMap.lookup_set] at hlookup
    split at hlookup
    · next hid => exact hid.symm
    · exact absurd (hs.known id' _ hlookup).1 (lt_irrefl _)
  capacity := rfl

theorem Inv.fresh (hs : s.Inv) {id : String} (hnone : s.entries.lookup id = none) :
    (s.fresh id).Inv := by
  have hfocus := focus_fresh hs.toBase hnone
  -- no call is about an entry that does not exist yet
  have hcall : ∀ c, ((s.fresh id).call c).target ≠ some s.entryCount := fun c hc => lt_irrefl _ (hs.calls c _ hc)
  have hinv : (s.fresh id).EntryInv s.entryCount :=
    { held := by simp [fresh_entry]
      promise := by simp [fresh_entry]
      waiting := fun c p hc => absurd (by rw [hc]; rfl) (hcall c)
      loading := by simp [fresh_entry]
      committing := fun c hc => absurd (by rw [hc]; rfl) (hcall c)
      unique := fun c _ hc => absurd (by rw [hc]; rfl) (hcall c)
      committer := by simp [fresh_entry]
      reserved := by simp [fresh_entry]
      reservation := by simp [fresh_entry] }
  have hbase := hs.toBase.focus hfocus (lt_succ_self _) hinv
  refine { hbase with ready := ?_, results := fun e => ?_ }
  · rw [hbase.readyCount_eq s.entryCount, hfocus.othersReady, hfocus.capacity, fresh_entry]
    have hbefore := hs.toBase.readyCount_eq s.entryCount
    have hready := hs.ready
    simp only [reduceCtorEq, and_false, if_false]
    omega
  · by_cases hne : e = s.entryCount
    · subst hne
      simp [Preparations.fresh]
    · rw [hfocus.entry e hne, hfocus.entries e hne]
      exact hs.results e

theorem Inv.entryFor (hs : s.Inv) (id : String) :
    (s.entryFor id).1.Inv ∧ (s.entryFor id).2 < (s.entryFor id).1.entryCount := by
  rw [Preparations.entryFor]
  split
  · next e hlookup => exact ⟨hs, (hs.known id e hlookup).1⟩
  · next hnone => exact ⟨hs.fresh hnone, lt_succ_self _⟩

theorem Inv.start (hs : s.Inv) (he : e < s.entryCount) (hcall : call.target = some e)
    (hcommit : call ≠ .committing e) (hwait : ∀ p, call ≠ .waiting e p) : (s.start call).Inv := by
  have hnone : (s.call s.callCount).target = none := hs.unusedCall _ le_rfl
  have hs₁ : { s with callCount := s.callCount + 1 }.Inv :=
    { hs with
      entryInv := fun e => (hs.entryInv e).frame
        ⟨rfl, rfl, fun _ _ => rfl, fun _ _ => rfl, fun _ _ => rfl, le_rfl⟩
      unusedCall := fun c hle => hs.unusedCall c (le_of_succ_le hle) }
  refine hs₁.setCall (c := s.callCount) he (lt_succ_self _) (fun e' h => ?_)
    (about_of_target hcall) ?_
  · rw [hnone] at h
    cases h
  · refine (hs₁.entryInv e).setCall (.inl fun h => ?_) hcommit fun p hp => absurd hp (hwait p)
    have hnone : (Call.committing e : Call Source).target = none := h ▸ hnone
    cases hnone

/-! ## Inspecting and reserving -/

theorem touch_call (s : Preparations Source CommitState) (e : Nat) : (s.touch e).call = s.call := by
  unfold touch
  dsimp only
  split
  · rfl
  · split <;> rfl

theorem Inv.touch (hs : s.Inv) (hin : s.inTable e = true) : (s.touch e).Inv := by
  obtain ⟨hbase, hready, -⟩ := hs.toBase.touch hin (hs.ready.trans (le_succ _))
  exact { hbase with ready := hready, results := (keepsLoads_touch s e).results hs.results }

theorem Inv.inspected (hs : s.Inv) (hc : s.call c = .inspect e) (loaded : Source) : (s.inspected c e loaded).Inv := by
  rw [Preparations.inspected]
  split
  · next hin =>
    exact (hs.touch hin.1).done (e := e) (by rw [touch_call, hc]; rfl)
      (.inl (by rw [touch_call, hc]; simp)) _
  · exact hs.done (e := e) (by rw [hc]; rfl) (.inl (by rw [hc]; simp)) _

/-- A ready entry is taken: its commit begins, under a fresh promise. -/
def take (s : Preparations Source CommitState) (c e : Nat) : Preparations Source CommitState :=
  { s.update e fun entry =>
      { entry with phase := .committing, reservationSettled := some s.promiseCount } with
    settled := Function.update s.settled s.promiseCount false
    promiseCount := s.promiseCount + 1 }.setCall c (.committing e)

theorem take_entry (s : Preparations Source CommitState) (c e : Nat) : (s.take c e).entry e
    = { s.entry e with phase := .committing, reservationSettled := some s.promiseCount } := by
  simp [take, setCall, update]

theorem take_call_self (s : Preparations Source CommitState) (c e : Nat) : (s.take c e).call c = .committing e := by
  simp [take, setCall]

theorem take_call_of_ne (s : Preparations Source CommitState) {c' : Nat} (e : Nat) (hne : c' ≠ c) :
    (s.take c e).call c' = s.call c' := update_of_ne hne _ _

theorem focus_take (hc : (s.call c).target = some e) (hlt : c < s.callCount) : Focus s (s.take c e) e where
  entry e' hne := update_of_ne hne _ _
  others := rfl
  call c' := by
    by_cases heq : c' = c
    · subst heq
      rw [take_call_self]
      exact .inr ⟨about_of_target hc, about_of_target rfl, hlt⟩
    · exact .inl (take_call_of_ne s e heq)
  settled p := by
    by_cases hp : p = s.promiseCount
    · exact .inr (.inr hp.ge)
    · exact .inl (update_of_ne hp _ _)
  taken p hp := by
    rw [take_entry] at hp
    exact .inr (Option.some.inj hp).le
  reservation _ := .inl rfl
  promises := le_succ _
  calls := le_rfl
  reservations := le_rfl
  entries _ _ := Iff.rfl
  counted := le_rfl
  named hnamed id hlookup := by
    rw [take_entry]
    exact hnamed id hlookup
  capacity := rfl

theorem Inv.take (hs : s.Inv) (hc : (s.call c).target = some e) (hin : s.inTable e = true)
    (hphase : (s.entry e).phase = .ready) : (s.take c e).Inv := by
  have hi := hs.entryInv e
  have he := hs.calls c e hc
  have hfocus := focus_take hc (hs.call_lt hc)
  have hin' : (s.take c e).inTable e = true := by simpa [inTable, Preparations.take, Preparations.setCall,
    Preparations.update] using hin
  have hfree : (s.entry e).reservationSettled = none := by
    rw [← not_isSome_iff_eq_none, hi.held, hphase]
    simp
  -- nobody else is committing the entry
  have hcalls : ∀ c', (s.take c e).call c' = .committing e → c' = c := by
    intro c' hc'
    by_contra hne
    rw [take_call_of_ne s e hne] at hc'
    have := hi.committing c' hc' hin
    rw [hphase] at this
    cases this
  have hinv : (s.take c e).EntryInv e :=
    { held := by simp [take_entry, hin']
      promise := fun p hp => by
        rw [take_entry] at hp
        cases hp
        exact ⟨lt_succ_self _, by simp [Preparations.take, Preparations.setCall]⟩
      waiting := fun c' p hc' => by
        -- the entry was ready, so those who waited for it are settled
        have hne : c' ≠ c := by
          rintro rfl
          rw [take_call_self] at hc'
          cases hc'
        rw [take_call_of_ne s e hne] at hc'
        obtain ⟨hlt, hopen⟩ := hi.waiting c' p hc'
        rw [hfree] at hopen
        have hp : (s.take c e).settled p = s.settled p := update_of_ne hlt.ne _ _
        refine ⟨lt_succ_of_lt hlt, fun hfalse => ?_⟩
        cases hopen (hp ▸ hfalse)
      loading := fun _ => by
        have hloads := hi.loading hin
        rw [hphase] at hloads
        simpa [take_entry] using hloads
      committing := fun _ _ _ => by rw [take_entry]
      unique := fun c₁ c₂ h₁ h₂ _ => (hcalls c₁ h₁).trans (hcalls c₂ h₂).symm
      committer := fun _ _ => ⟨c, take_call_self s c e⟩
      reserved := fun _ => by
        have hnone := hi.reserved hin
        rw [hphase] at hnone
        simpa [take_entry] using hnone
      reservation := by
        rw [take_entry]
        exact hi.reservation }
  have hbase := hs.toBase.focus hfocus he hinv
  have hkeeps : KeepsLoads s (s.take c e) := (keepsLoads_update s e (f := fun entry =>
    { entry with phase := .committing, reservationSettled := some s.promiseCount })
    (fun _ => rfl) (fun _ => rfl)).trans (.of_eq rfl rfl)
  refine { hbase with ready := ?_, results := hkeeps.results hs.results }
  rw [hbase.readyCount_eq e, hfocus.othersReady, hfocus.capacity, take_entry]
  have hbefore := hs.toBase.readyCount_eq e
  have hready := hs.ready
  simp only [reduceCtorEq, and_false, if_false]
  omega

theorem Inv.tryReserve (hs : s.Inv) (hc : (s.call c).target = some e) (hold : s.call c ≠ .committing e) :
    (s.tryReserve c e).Inv := by
  have he := hs.calls c e hc
  rw [Preparations.tryReserve]
  split
  · exact hs.done hc (.inl hold) _
  · next hin =>
    have hin : s.inTable e = true := by simpa using hin
    split
    · split
      · exact hs.done hc (.inl hold) _
      · next p hp =>
        refine hs.setCall he (hs.call_lt hc) (about_of_target hc) (about_of_target rfl) ?_
        refine (hs.entryInv e).setCall (.inl hold) (by simp) fun q hq => ?_
        cases hq
        exact ⟨((hs.entryInv e).promise p hp).1, hp⟩
    · next hphase => exact hs.take hc hin (not_not.mp hphase)

/-! ## Committing -/

theorem settleReservation_setCall (s : Preparations Source CommitState) (c e : Nat) (call : Call Source) :
    (s.setCall c call).settleReservation e = (s.settleReservation e).setCall c call := by
  cases hp : (s.entry e).reservationSettled <;> simp [settleReservation, setCall, update, hp]

theorem touch_setCall (s : Preparations Source CommitState) (c e : Nat) (call : Call Source) :
    (s.setCall c call).touch e = (s.touch e).setCall c call := by
  have hreorder : (s.setCall c call).reorder e = (s.reorder e).setCall c call := rfl
  rw [touch_eq, touch_eq, hreorder]
  generalize s.reorder e = r
  have hcount : (r.setCall c call).readyCount = r.readyCount := rfl
  have hfirst : (r.setCall c call).firstReady = r.firstReady := rfl
  rw [hcount, hfirst]
  show (if r.readyCount ≤ s.capacity then _ else _) = _
  split
  · rfl
  · cases r.firstReady <;> rfl

theorem makeReady_setCall (s : Preparations Source CommitState) (c e : Nat) (call : Call Source) :
    (s.setCall c call).makeReady e = (s.makeReady e).setCall c call := by
  rw [makeReady, makeReady]
  have hin : (s.setCall c call).inTable e = s.inTable e := rfl
  rw [hin]
  split
  · rfl
  · rw [← touch_setCall, ← settleReservation_setCall]
    rfl

theorem Inv.committing_over (hs : s.Inv) (hc : s.call c = .committing e) (hin : s.inTable e = true)
    (outcome : Outcome Source) (c' : Nat) : (s.setCall c (.done outcome)).call c' ≠ .committing e := by
  intro hc'
  by_cases hne : c' = c
  · subst hne
    simp [Preparations.setCall] at hc'
  · simp only [Preparations.setCall, update_of_ne hne] at hc'
    exact hne ((hs.entryInv e).unique c' c hc' hc hin)

theorem Inv.makeReady_done (hs : s.Inv) (hc : s.call c = .committing e) (outcome : Outcome Source) :
    ((s.makeReady e).setCall c (.done outcome)).Inv := by
  have hi := hs.entryInv e
  have he := hs.calls c e (by rw [hc]; rfl)
  have hfocus : Focus s (s.setCall c (.done outcome)) e :=
    focus_setCall (about_of_target (by rw [hc]; rfl)) (fun _ h => by cases h)
      (hs.call_lt (e := e) (by rw [hc]; rfl))
  have hloose : (s.setCall c (.done outcome)).Loose e := by
    refine ⟨fun c' p hc' => ?_, hi.reservation⟩
    by_cases hne : c' = c
    · subst hne
      simp [Preparations.setCall] at hc'
    · simp only [Preparations.setCall, update_of_ne hne] at hc'
      exact hi.waiting c' p hc'
  have hready : s.inTable e = true → (s.entry e).loads = false ∧ (s.entry e).reservation = none := by
    intro hin
    have hphase := hi.committing c hc hin
    have hloads := hi.loading hin
    have hnone := hi.reserved hin
    rw [hphase] at hloads hnone
    exact ⟨by simpa using hloads, by simpa using hnone⟩
  rw [← makeReady_setCall]
  have hkeeps := keepsLoads_makeReady (s.setCall c (.done outcome)) e
  obtain ⟨hbase, hcount⟩ := hs.toBase.makeReady hs.ready hfocus he hloose hi.free fun hin =>
    ⟨(hready hin).1, (hready hin).2, hs.committing_over hc hin outcome⟩
  exact { hbase with ready := hcount, results := hkeeps.results hs.results }

def grant (s : Preparations Source CommitState) (c e : Nat) (source : Source) (state : CommitState) :
    Preparations Source CommitState :=
  { s.update e fun entry => { entry with phase := .reserved, reservation := some s.reservationCount } with
    reservation := Function.update s.reservation s.reservationCount (some { entry := e, source, state })
    reservationCount := s.reservationCount + 1 }.setCall c (.done (.reservation s.reservationCount))

theorem grant_entry (s : Preparations Source CommitState) (c e : Nat) (source : Source)
    (state : CommitState) : (s.grant c e source state).entry e
      = { s.entry e with phase := .reserved, reservation := some s.reservationCount } := by
  simp [grant, setCall, update]

theorem Inv.grant (hs : s.Inv) (hc : s.call c = .committing e) (hin : s.inTable e = true)
    (source : Source) (state : CommitState) : (s.grant c e source state).Inv := by
  have hi := hs.entryInv e
  have he := hs.calls c e (by rw [hc]; rfl)
  have hphase := hi.committing c hc hin
  have hin' : (s.grant c e source state).inTable e = true := by
    simpa [inTable, Preparations.grant, Preparations.setCall, Preparations.update] using hin
  have hcalls : ∀ c', (s.grant c e source state).call c' ≠ .committing e := hs.committing_over hc hin _
  have hfocus : Focus s (s.grant c e source state) e :=
    { entry := fun e' hne => update_of_ne hne _ _
      others := rfl
      call := (focus_setCall (about_of_target (by rw [hc]; rfl)) (fun _ h => by cases h)
        (hs.call_lt (e := e) (by rw [hc]; rfl))).call
      settled := fun _ => .inl rfl
      taken := fun p hp => by
        rw [grant_entry] at hp
        exact .inl hp
      reservation := fun r => by
        by_cases hr : r = s.reservationCount
        · exact .inr ⟨hr.ge, lt_succ_of_le hr.le⟩
        · exact .inl (update_of_ne hr _ _)
      promises := le_rfl
      calls := le_rfl
      reservations := le_succ _
      entries := fun _ _ => Iff.rfl
      counted := le_rfl
      named := fun hnamed id hlookup => by
        rw [grant_entry]
        exact hnamed id hlookup
      capacity := rfl }
  have hinv : (s.grant c e source state).EntryInv e :=
    { held := by
        have hheld := hi.held
        rw [hphase] at hheld
        simpa [grant_entry, hin', hin] using hheld
      promise := by
        rw [grant_entry]
        exact hi.promise
      waiting := fun c' p hc' => by
        rw [grant_entry]
        by_cases hne : c' = c
        · subst hne
          simp [Preparations.grant, Preparations.setCall] at hc'
        · simp only [Preparations.grant, Preparations.setCall, update_of_ne hne] at hc'
          exact hi.waiting c' p hc'
      loading := fun _ => by
        have hloads := hi.loading hin
        rw [hphase] at hloads
        simpa [grant_entry] using hloads
      committing := fun c' hc' => absurd hc' (hcalls c')
      unique := fun c' _ hc' => absurd hc' (hcalls c')
      committer := by simp [grant_entry]
      reserved := by simp [grant_entry]
      reservation := fun r hr => by
        rw [grant_entry] at hr
        cases hr
        exact ⟨_, update_self .., rfl⟩ }
  have hbase := hs.toBase.focus hfocus he hinv
  have hkeeps : KeepsLoads s (s.grant c e source state) := (keepsLoads_update s e (f := fun entry =>
    { entry with phase := .reserved, reservation := some s.reservationCount })
    (fun _ => rfl) (fun _ => rfl)).trans (.of_eq rfl rfl)
  refine { hbase with ready := ?_, results := hkeeps.results hs.results }
  rw [hbase.readyCount_eq e, hfocus.othersReady, hfocus.capacity, grant_entry]
  have hbefore := hs.toBase.readyCount_eq e
  have hready := hs.ready
  simp only [reduceCtorEq, and_false, if_false]
  omega

theorem Inv.committed (hs : s.Inv) (hc : s.call c = .committing e) (outcome : Commit Source CommitState) :
    (s.committed c e outcome).Inv := by
  cases outcome with
  | failed reason | refused => exact hs.remove_done hc _
  | committed source state aborted =>
    have hs₁ : (s.update e fun entry => { entry with source := some source }).Inv := by
      have he := hs.calls c e (by rw [hc]; rfl)
      obtain ⟨hbase, hcount⟩ := hs.toBase.update he (f := fun entry => { entry with source := some source })
        (fun _ => rfl) (fun _ => rfl) (fun _ => rfl) (fun _ => rfl) (fun _ => rfl)
      have hkeeps := keepsLoads_update s e (f := fun entry => { entry with source := some source })
        (fun _ => rfl) (fun _ => rfl)
      exact { hbase with ready := hcount ▸ hs.ready, results := hkeeps.results hs.results }
    have hc₁ : (s.update e fun entry => { entry with source := some source }).call c = .committing e := hc
    cases aborted with
    | some reason => exact hs₁.makeReady_done hc₁ (.threw reason)
    | none =>
      show (if ¬ (s.update e fun entry => { entry with source := some source }).inTable e = true
        then _ else _ : Preparations Source CommitState).Inv
      split
      · next hout => exact hs₁.done (e := e) (by rw [hc₁]; rfl) (.inr (by simpa using hout)) .undefined
      · next hin => exact hs₁.grant hc₁ (by simpa using hin) source state

/-! ## Reservations and requests -/

theorem Inv.current (hs : s.Inv) {r : Nat} {reservation : Reservation Source CommitState}
    (h : s.current r reservation = true) :
    s.inTable reservation.entry = true ∧ (s.entry reservation.entry).phase = .reserved
      ∧ reservation.entry < s.entryCount := by
  rw [Preparations.current, Bool.and_eq_true, beq_iff_eq] at h
  obtain ⟨hin, hr⟩ := h
  exact ⟨hin, ((hs.entryInv _).reserved hin).mpr (by rw [hr]; rfl), (hs.known _ _ (inTable_iff.mp hin)).1⟩

theorem Inv.attach (hs : s.Inv) (r : Nat) (reservation : Reservation Source CommitState) :
    (s.attach r reservation).1.Inv := by
  rw [Preparations.attach]
  split
  · exact hs
  · next h => exact hs.remove (hs.current (not_not.mp h)).2.2

theorem Inv.discard (hs : s.Inv) (r : Nat) (reservation : Reservation Source CommitState) :
    (s.discard r reservation).Inv := by
  rw [Preparations.discard]
  split
  · exact hs
  · next h => exact hs.remove (hs.current (not_not.mp h)).2.2

theorem Inv.release (hs : s.Inv) (r : Nat) (reservation : Reservation Source CommitState)
    (reusable : Bool) : (s.release r reservation reusable).Inv := by
  rw [Preparations.release]
  split
  · exact hs
  · next h =>
    obtain ⟨hin, hphase, he⟩ := hs.current (not_not.mp h).1
    generalize reservation.entry = e at *
    split
    · exact hs.remove he
    · have hi := hs.entryInv e
      have hkeeps := (keepsLoads_update s e (f := fun entry => { entry with reservation := none })
        (fun _ => rfl) (fun _ => rfl)).trans (keepsLoads_makeReady _ e)
      have hin' : (s.update e fun entry => { entry with reservation := none }).inTable e = true := by
        simpa [inTable, update] using hin
      obtain ⟨hbase, hcount⟩ := hs.toBase.makeReady hs.ready
        (focus_update s e (f := fun entry => { entry with reservation := none }) (fun _ => rfl) (fun _ => rfl)) he
        (hi.loose.update (fun _ => rfl) fun _ => .inr rfl) (fun hout => by simp [hin'] at hout)
        (fun _ => by
          have hloads := hi.loading hin
          rw [hphase] at hloads
          refine ⟨by simpa [update] using hloads, by simp [update], fun c hc => ?_⟩
          have := hi.committing c hc hin
          rw [hphase] at this
          cases this)
      exact { hbase with ready := hcount, results := hkeeps.results hs.results }

theorem Inv.remove_lookup (hs : s.Inv) {id : String} (h : s.entries.lookup id = some e) :
    (s.remove e).Inv := hs.remove (hs.known id e h).1

theorem Inv.invalidate (hs : s.Inv) (id : String) : (s.invalidate id).Inv := by
  rw [Preparations.invalidate]
  split
  · exact hs
  · next hlookup => exact hs.remove_lookup hlookup

theorem Inv.takeReady (hs : s.Inv) (id : String) : (s.takeReady id).1.Inv := by
  rw [Preparations.takeReady]
  split
  · exact hs
  · next hlookup =>
    split
    · exact hs.remove_lookup hlookup
    · exact hs

theorem Inv.discardReady [DecidableEq Source] (hs : s.Inv) (id : String) (expected : Source) :
    (s.discardReady id expected).1.Inv := by
  rw [Preparations.discardReady]
  split
  · exact hs
  · next hlookup =>
    split
    · exact hs
    · split
      · exact hs
      · exact hs.remove_lookup hlookup

/-! ## Runs -/

theorem Inv.resume (hs : s.Inv) (h : s.resume c = some s') : s'.Inv := by
  rw [Preparations.resume] at h
  split at h
  · next e hc =>
    split at h
    · cases h
    · cases h
      exact hs.inspected hc _
    · cases h
      exact hs.done (e := e) (by rw [hc]; rfl) (.inl (by rw [hc]; simp)) _
  · next e hc =>
    split at h
    · cases h
    · cases h
      exact hs.tryReserve (by rw [hc]; rfl) (by rw [hc]; simp)
    · cases h
      exact hs.done (e := e) (by rw [hc]; rfl) (.inl (by rw [hc]; simp)) _
  · next e p hc =>
    split at h
    · cases h
      exact hs.tryReserve (by rw [hc]; rfl) (by rw [hc]; simp)
    · cases h
  · cases h
  · cases h

theorem Inv.abort (hs : s.Inv) {reason : JsError} (h : s.abort c reason = some s') : s'.Inv := by
  rw [Preparations.abort] at h
  split at h
  all_goals cases h
  · next e hc => exact hs.done (e := e) (by rw [hc]; rfl) (.inl (by rw [hc]; simp)) _
  · next e hc => exact hs.done (e := e) (by rw [hc]; rfl) (.inl (by rw [hc]; simp)) _
  · next e p hc => exact hs.done (e := e) (by rw [hc]; rfl) (.inl (by rw [hc]; simp)) _

/-- **Every action keeps the invariant.** -/
theorem Inv.step [DecidableEq Source] (hs : s.Inv) {act : PreparationAct Source CommitState} (h : s.step act = some s') :
    s'.Inv := by
  cases act with
  | inspect id | reserve id =>
    cases h
    obtain ⟨hinv, he⟩ := hs.entryFor id
    exact hinv.start he rfl (by simp) (by simp)
  | loaded e source =>
    obtain ⟨hloads, rfl⟩ := ite_none_right_eq_some.mp h |>.imp id Option.some.inj
    exact hs.loaded ((hs.results e).mp hloads).1 hloads source
  | loadFailed e reason =>
    obtain ⟨hloads, rfl⟩ := ite_none_right_eq_some.mp h |>.imp id Option.some.inj
    exact hs.loadFailed ((hs.results e).mp hloads).1 reason
  | resume c => exact hs.resume h
  | abort c reason => exact hs.abort h
  | commit c outcome =>
    rw [Preparations.step] at h
    split at h
    · next e hc =>
      cases h
      exact hs.committed hc outcome
    · cases h
  | attach r =>
    obtain ⟨reservation, -, rfl⟩ := map_eq_some_iff.mp h
    exact hs.attach r reservation
  | discard r =>
    obtain ⟨reservation, -, rfl⟩ := map_eq_some_iff.mp h
    exact hs.discard r reservation
  | release r reusable =>
    obtain ⟨reservation, -, rfl⟩ := map_eq_some_iff.mp h
    exact hs.release r reservation reusable
  | invalidate id =>
    cases h
    exact hs.invalidate id
  | discardReady id expected =>
    cases h
    exact hs.discardReady id expected
  | takeReady id =>
    cases h
    exact hs.takeReady id

end Preparations

end CocoHarness.Persistence
