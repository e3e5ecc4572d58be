/-
# CocoHarness.Persistence.PreparationsOps — the operations of the pool keep its invariant.

An operation ends with its entry at rest (nobody holds it) or held by one call or one reservation.
`Loose` is what is left of the invariant of an entry in the middle of an operation; removing the entry
or making it ready restores the rest.
-/
import CocoHarness.Persistence.PreparationsInvariant

namespace CocoHarness.Persistence

open Lib SessionLog List InsertionMap

namespace Preparations

variable {Source CommitState : Type} {s s₀ s' : Preparations Source CommitState} {e : Nat}

/-! ## Entries at rest -/

/-- What of the invariant of an entry an operation relies on while it is under way. -/
structure Loose (s : Preparations Source CommitState) (e : Nat) : Prop where
  waiting : ∀ c p, s.call c = .waiting e p → p < s.promiseCount
    ∧ (s.settled p = false → (s.entry e).reservationSettled = some p)
  reservation : ∀ r, (s.entry e).reservation = some r →
    ∃ reservation, s.reservation r = some reservation ∧ reservation.entry = e

theorem EntryInv.loose (h : s.EntryInv e) : s.Loose e := ⟨h.waiting, h.reservation⟩

theorem EntryInv.free (h : s.EntryInv e) (hout : s.inTable e = false) : (s.entry e).reservationSettled = none := by
  rw [← Option.not_isSome_iff_eq_none, h.held, hout]
  simp

theorem Loose.update (h : s.Loose e) {f : PreparationEntry Source → PreparationEntry Source}
    (hsettled : ∀ entry, (f entry).reservationSettled = entry.reservationSettled)
    (hreservation : ∀ entry, (f entry).reservation = entry.reservation
      ∨ (f entry).reservation = none) : (s.update e f).Loose e where
  waiting c p hc := by
    simp only [Preparations.update, Function.update_self, hsettled]
    exact h.waiting c p hc
  reservation r hr := by
    simp only [Preparations.update, Function.update_self] at hr
    rcases hreservation (s.entry e) with hsame | hnone
    · exact h.reservation r (hsame ▸ hr)
    · rw [hnone] at hr
      cases hr

theorem EntryInv.rest (hsettled : (s.entry e).reservationSettled = none)
    (hready : s.inTable e = true → (s.entry e).phase = .ready ∧ (s.entry e).loads = false
      ∧ (s.entry e).reservation = none ∧ ∀ c, s.call c ≠ .committing e)
    (hwaiting : ∀ c p, s.call c = .waiting e p → p < s.promiseCount ∧ s.settled p = true)
    (hreservation : ∀ r, (s.entry e).reservation = some r →
      ∃ reservation, s.reservation r = some reservation ∧ reservation.entry = e) : s.EntryInv e where
  held := by
    rw [hsettled]
    constructor
    · intro h
      cases h
    · rintro ⟨hin, hphase⟩
      rw [(hready hin).1] at hphase
      rcases hphase with hphase | hphase <;> cases hphase
  promise p hp := by
    rw [hsettled] at hp
    cases hp
  waiting c p hc := by
    obtain ⟨hlt, hdone⟩ := hwaiting c p hc
    exact ⟨hlt, fun hopen => by simp [hdone] at hopen⟩
  loading hin := by
    obtain ⟨hphase, hloads, -⟩ := hready hin
    simp [hphase, hloads]
  committing c hc hin := absurd hc ((hready hin).2.2.2 c)
  unique c _ hc _ hin := absurd hc ((hready hin).2.2.2 c)
  committer hin hphase := by
    rw [(hready hin).1] at hphase
    cases hphase
  reserved hin := by
    obtain ⟨hphase, -, hnone, -⟩ := hready hin
    simp [hphase, hnone]
  reservation := hreservation

theorem Loose.out (h : s.Loose e) (hout : s.inTable e = false)
    (hfree : (s.entry e).reservationSettled = none) : s.EntryInv e := by
  refine .rest hfree (fun hin => by simp [hout] at hin) (fun c p hc => ?_) h.reservation
  obtain ⟨hlt, hopen⟩ := h.waiting c p hc
  refine ⟨hlt, (Bool.not_eq_false _).mp fun hfalse => ?_⟩
  rw [hfree] at hopen
  cases hopen hfalse

theorem inTable_settleReservation (s : Preparations Source CommitState) (e : Nat) :
    (s.settleReservation e).inTable e = s.inTable e := by
  have htable : (s.settleReservation e).entries = s.entries := by rw [settleReservation_eq]
  rw [inTable, htable, settleReservation_entry]
  simp [inTable]

theorem Loose.settleReservation (h : s.Loose e)
    (hready : s.inTable e = true → (s.entry e).phase = .ready ∧ (s.entry e).loads = false
      ∧ (s.entry e).reservation = none ∧ ∀ c, s.call c ≠ .committing e) :
    (s.settleReservation e).EntryInv e := by
  have hcall : (s.settleReservation e).call = s.call := by rw [settleReservation_eq]
  have hcount : (s.settleReservation e).promiseCount = s.promiseCount := by rw [settleReservation_eq]
  have hreservation : (s.settleReservation e).reservation = s.reservation := by rw [settleReservation_eq]
  have hin := inTable_settleReservation s e
  refine .rest (by simp [settleReservation_entry]) ?_ ?_ ?_
  · rw [hin, settleReservation_entry, hcall]
    simpa using hready
  · intro c p hc
    rw [hcall] at hc
    rw [hcount, settleReservation_settled]
    obtain ⟨hlt, hopen⟩ := h.waiting c p hc
    cases hsettled : s.settled p with
    | true => exact ⟨hlt, rfl⟩
    | false => exact ⟨hlt, by simp [hopen hsettled]⟩
  · rw [settleReservation_entry, hreservation]
    simpa using h.reservation

/-! ## Removing an entry -/

theorem inTable_erase (s : Preparations Source CommitState) (e : Nat) :
    { s with entries := s.entries.erase (s.entry e).id }.inTable e = false := by
  simp [inTable, lookup_erase]

theorem focus_erase (hin : s.inTable e = true) : Focus s { s with entries := s.entries.erase (s.entry e).id } e := by
  refine focus_entries (others_erase fun e' hlookup => ?_) fun id hlookup => .inr ?_
  · rw [inTable_iff.mp hin] at hlookup
    exact (Option.some.inj hlookup).symm
  · rw [lookup_erase] at hlookup
    split at hlookup
    · cases hlookup
    · exact hlookup

theorem remove_of_out (hout : s.inTable e = false) : s.remove e = s := by simp [remove, hout]

theorem remove_of_inTable (hin : s.inTable e = true) :
    s.remove e = { s with entries := s.entries.erase (s.entry e).id }.settleReservation e := by
  simp [remove, hin]

theorem focus_remove (s : Preparations Source CommitState) (e : Nat) : Focus s (s.remove e) e := by
  cases hin : s.inTable e with
  | false =>
    rw [remove_of_out hin]
    exact .refl
  | true =>
    rw [remove_of_inTable hin]
    exact (focus_erase hin).trans (focus_settleReservation _ e)

/-- **Removal.**  A removed entry is at rest, and its waiters are settled. -/
theorem Loose.remove (h : s.Loose e) (hfree : s.inTable e = false → (s.entry e).reservationSettled = none) :
    (s.remove e).EntryInv e ∧ (s.remove e).inTable e = false := by
  cases hin : s.inTable e with
  | false =>
    rw [remove_of_out hin]
    exact ⟨h.out hin (hfree hin), hin⟩
  | true =>
    have hout := inTable_erase s e
    rw [remove_of_inTable hin, inTable_settleReservation]
    refine ⟨Loose.settleReservation ⟨h.waiting, h.reservation⟩ fun hin => ?_, hout⟩
    simp [hout] at hin

/-! ## Eviction -/

def reorder (s : Preparations Source CommitState) (e : Nat) : Preparations Source CommitState :=
  { s with entries := (s.entries.erase (s.entry e).id).set (s.entry e).id e }

theorem entries_reorder (s : Preparations Source CommitState) (e : Nat) :
    (s.reorder e).entries.entries = (s.entries.erase (s.entry e).id).entries ++ [((s.entry e).id, e)] :=
  entries_set_of_lookup_none (by simp [lookup_erase]) e

theorem lookup_reorder (hin : s.inTable e = true) (id : String) :
    (s.reorder e).entries.lookup id = s.entries.lookup id := by
  rw [reorder, lookup_set, lookup_erase]
  split
  · next hid => rw [hid, inTable_iff.mp hin]
  · rfl

theorem focus_reorder (hin : s.inTable e = true) : Focus s (s.reorder e) e := by
  refine focus_entries ?_ fun id hlookup => .inr ?_
  · have herase := (focus_erase hin).others
    have hset := entries_reorder s e
    simp only [reorder] at hset
    rw [hset, filter_append, herase]
    simp
  · exact lookup_reorder hin id ▸ hlookup

theorem readyCount_reorder (hin : s.inTable e = true) : (s.reorder e).readyCount = s.readyCount := by
  have hperm := perm_of_lookup (inTable_iff.mp hin)
  show (s.reorder e).entries.entries.countP (fun kv => (s.entry kv.2).phase = .ready) = s.readyCount
  rw [readyCount, entries_reorder, hperm.countP_eq, countP_append, countP_cons]
  simp [countP_cons, Nat.add_comm]

theorem inTable_reorder (hin : s.inTable e = true) (e' : Nat) : (s.reorder e).inTable e' = s.inTable e' := by
  have hentry : (s.reorder e).entry = s.entry := rfl
  rw [inTable, lookup_reorder hin, hentry]
  rfl

theorem Base.reorder (hs : s.Base) (hin : s.inTable e = true) : (s.reorder e).Base := by
  have hknown := hs.known _ e (inTable_iff.mp hin)
  refine hs.focus (focus_reorder hin) hknown.1 ((hs.entryInv e).frame ?_)
  exact ⟨rfl, inTable_reorder hin e, fun _ _ => rfl, fun _ _ => rfl, fun _ _ => rfl, le_rfl⟩

def firstReady (s : Preparations Source CommitState) : Option (String × Nat) :=
  s.entries.entries.find? fun kv => (s.entry kv.2).phase = .ready

theorem touch_eq (s : Preparations Source CommitState) (e : Nat) :
    s.touch e = if (s.reorder e).readyCount ≤ s.capacity then s.reorder e else
      match (s.reorder e).firstReady with
      | none => s.reorder e
      | some kv => { s.reorder e with entries := (s.reorder e).entries.erase kv.1 } := rfl

/-- **Eviction.**  One ready entry too many is one that `touch` evicts. -/
theorem Base.touch (hs : s.Base) (hin : s.inTable e = true) (hcount : s.readyCount ≤ s.capacity + 1) :
    (s.touch e).Base ∧ (s.touch e).readyCount ≤ (s.touch e).capacity ∧ (s.touch e).capacity = s.capacity := by
  have hbase := hs.reorder hin
  rw [← readyCount_reorder hin] at hcount
  rw [touch_eq]
  generalize hr : s.reorder e = r at *
  have hcapacity : r.capacity = s.capacity := hr ▸ rfl
  split
  · next hle => exact ⟨hbase, hcapacity ▸ hle, hcapacity⟩
  · next hgt =>
    split
    · next hnone =>
      -- too many are ready, so one is
      have hzero : r.readyCount = 0 := by
        rw [readyCount, countP_eq_zero]
        exact find?_eq_none.mp hnone
      omega
    · next kv hsome =>
      obtain ⟨id, e'⟩ := kv
      have hready : (r.entry e').phase = .ready := by simpa using find?_some hsome
      have hlookup := lookup_eq_some_iff.mpr (mem_of_find?_eq_some hsome)
      obtain ⟨hknown, rfl⟩ := hbase.known id e' hlookup
      have hin' : r.inTable e' = true := inTable_iff.mpr hlookup
      have hfocus := focus_erase hin'
      have hout := inTable_erase r e'
      have hfree : (r.entry e').reservationSettled = none := by
        rw [← Option.not_isSome_iff_eq_none, (hbase.entryInv e').held, hready]
        simp
      have hloose := (hbase.entryInv e').loose
      have hbase' := hbase.focus hfocus hknown (Loose.out ⟨hloose.waiting, hloose.reservation⟩ hout hfree)
      refine ⟨hbase', ?_, hcapacity⟩
      have hbefore := hbase.readyCount_eq e'
      have hafter := hbase'.readyCount_eq e'
      rw [hfocus.othersReady, hout] at hafter
      rw [hin', hready] at hbefore
      simp only [and_self, if_true, Bool.false_eq_true, false_and, if_false] at hbefore hafter
      rw [hafter]
      show r.othersReady e' ≤ r.capacity
      omega

/-! ## Making an entry ready -/

theorem Focus.ready_of_out (h : Focus s s' e) (hs : s.Base) (hcount : s.readyCount ≤ s.capacity)
    (hs' : s'.Base) (hout : s'.inTable e = false) : s'.readyCount ≤ s'.capacity := by
  rw [hs'.readyCount_eq e, h.othersReady, h.capacity, hout]
  have hbefore := hs.readyCount_eq e
  simp only [Bool.false_eq_true, false_and, if_false]
  omega

/-- **Ready.**  An operation under way on one entry of a sound pool may end by making it ready. -/
theorem Base.makeReady (h₀ : s₀.Base) (hcount : s₀.readyCount ≤ s₀.capacity) (hfocus : Focus s₀ s e)
    (he : e < s.entryCount) (hloose : s.Loose e)
    (hfree : s.inTable e = false → (s.entry e).reservationSettled = none)
    (hready : s.inTable e = true → (s.entry e).loads = false ∧ (s.entry e).reservation = none
      ∧ ∀ c, s.call c ≠ .committing e) :
    (s.makeReady e).Base ∧ (s.makeReady e).readyCount ≤ (s.makeReady e).capacity := by
  rw [Preparations.makeReady]
  cases hin : s.inTable e with
  | false =>
    have hbase := h₀.focus hfocus he (hloose.out hin (hfree hin))
    simp only [Bool.false_eq_true, not_false_eq_true, if_true]
    exact ⟨hbase, hfocus.ready_of_out h₀ hcount hbase hin⟩
  | true =>
    rw [if_neg (by simp)]
    have hupdate := focus_update s e (f := fun entry => { entry with phase := .ready })
      (fun _ => rfl) (fun _ => rfl)
    have hall := (hfocus.trans hupdate).trans (focus_settleReservation _ e)
    have hin' : (s.update e fun entry => { entry with phase := .ready }).inTable e = true := by
      simpa [inTable, update] using hin
    have hinv := (hloose.update (f := fun entry => { entry with phase := .ready })
      (fun _ => rfl) (fun _ => .inl rfl)).settleReservation fun _ => by
        obtain ⟨hloads, hnone, hcalls⟩ := hready hin
        exact ⟨by simp [update], by simpa [update] using hloads, by simpa [update] using hnone, hcalls⟩
    have hbase := h₀.focus hall (by rw [settleReservation_eq]; exact he) hinv
    obtain ⟨htouch, hle, -⟩ := hbase.touch (e := e) (by rw [inTable_settleReservation, hin']) <| by
      rw [hbase.readyCount_eq e, hall.othersReady, hall.capacity]
      have hothers := h₀.readyCount_eq e
      split <;> omega
    exact ⟨htouch, hle⟩

end Preparations

end CocoHarness.Persistence
