/-
# CocoHarness.Persistence.PreparationsInvariant — a prepared session has one holder at a time.

`EntryInv` says what an entry, its place in the table, its promises and the calls about it have to do with each
other.  An action is about one entry, and the others do not see it (`Frame`); an eviction is a second change about
the entry evicted.
-/
import CocoHarness.Persistence.Preparations

namespace CocoHarness.Persistence

open Lib SessionLog Function List InsertionMap

variable {Source CommitState : Type}

def Call.target : Call Source → Option Nat
  | .inspect e | .loading e | .waiting e _ | .committing e => some e
  | .done _ => none

namespace Preparations

variable {s s' : Preparations Source CommitState} {e : Nat}

/-! ## The invariant of one entry -/

/-- **The entry invariant.** -/
structure EntryInv (s : Preparations Source CommitState) (e : Nat) : Prop where
  /-- A reservation promise is in force exactly while the entry is held. -/
  held : (s.entry e).reservationSettled.isSome = true ↔
    s.inTable e = true ∧ ((s.entry e).phase = .committing ∨ (s.entry e).phase = .reserved)
  promise : ∀ p, (s.entry e).reservationSettled = some p → p < s.promiseCount ∧ s.settled p = false
  /-- A call waits for the promise in force, or for one that is settled. -/
  waiting : ∀ c p, s.call c = .waiting e p → p < s.promiseCount
    ∧ (s.settled p = false → (s.entry e).reservationSettled = some p)
  loading : s.inTable e = true → ((s.entry e).phase = .loading ↔ (s.entry e).loads = true)
  committing : ∀ c, s.call c = .committing e → s.inTable e = true → (s.entry e).phase = .committing
  unique : ∀ c c', s.call c = .committing e → s.call c' = .committing e → s.inTable e = true → c = c'
  committer : s.inTable e = true → (s.entry e).phase = .committing → ∃ c, s.call c = .committing e
  reserved : s.inTable e = true → ((s.entry e).phase = .reserved ↔ (s.entry e).reservation.isSome = true)
  reservation : ∀ r, (s.entry e).reservation = some r →
    ∃ reservation, s.reservation r = some reservation ∧ reservation.entry = e

structure Frame (s s' : Preparations Source CommitState) (e : Nat) : Prop where
  entry : s'.entry e = s.entry e
  table : s'.inTable e = s.inTable e
  calls : ∀ c, (s.call c).target = some e ∨ (s'.call c).target = some e → s'.call c = s.call c
  settled : ∀ p, (s.entry e).reservationSettled = some p ∨ (∃ c, s.call c = .waiting e p) → s'.settled p = s.settled p
  reservation : ∀ r, (s.entry e).reservation = some r → s'.reservation r = s.reservation r
  promises : s.promiseCount ≤ s'.promiseCount

variable {c : Nat} {call : Call Source}

theorem Frame.call_iff (h : Frame s s' e) (hcall : call.target = some e) : s'.call c = call ↔ s.call c = call := by
  constructor
  · intro hc
    rw [← h.calls c (.inr (by rw [hc, hcall])), hc]
  · intro hc
    rw [h.calls c (.inl (by rw [hc, hcall])), hc]

theorem EntryInv.frame (hi : s.EntryInv e) (h : Frame s s' e) : s'.EntryInv e where
  held := by rw [h.entry, h.table, hi.held]
  promise p hp := by
    rw [h.entry] at hp
    obtain ⟨hlt, hopen⟩ := hi.promise p hp
    exact ⟨by have := h.promises; omega, by rw [h.settled p (.inl hp), hopen]⟩
  waiting c p hc := by
    rw [h.call_iff rfl] at hc
    obtain ⟨hlt, hopen⟩ := hi.waiting c p hc
    rw [h.entry, h.settled p (.inr ⟨c, hc⟩)]
    exact ⟨by have := h.promises; omega, hopen⟩
  loading := by
    rw [h.entry, h.table]
    exact hi.loading
  committing c hc := by
    rw [h.call_iff rfl] at hc
    rw [h.entry, h.table]
    exact hi.committing c hc
  unique c c' hc hc' := by
    rw [h.call_iff rfl] at hc hc'
    rw [h.table]
    exact hi.unique c c' hc hc'
  committer htable hphase := by
    rw [h.table] at htable
    rw [h.entry] at hphase
    obtain ⟨c, hc⟩ := hi.committer htable hphase
    exact ⟨c, (h.call_iff rfl).mpr hc⟩
  reserved := by
    rw [h.entry, h.table]
    exact hi.reserved
  reservation r hr := by
    rw [h.entry] at hr
    rw [h.reservation r hr]
    exact hi.reservation r hr

/-! ## The invariant of the pool -/

structure Base (s : Preparations Source CommitState) : Prop where
  known : ∀ id e, s.entries.lookup id = some e → e < s.entryCount ∧ (s.entry e).id = id
  entryInv : ∀ e, s.EntryInv e
  /-- A reservation promise belongs to one entry. -/
  owner : ∀ e e' p, (s.entry e).reservationSettled = some p → (s.entry e').reservationSettled = some p → e = e'
  calls : ∀ c e, (s.call c).target = some e → e < s.entryCount
  unusedCall : ∀ c, s.callCount ≤ c → (s.call c).target = none
  unusedReservation : ∀ r, s.reservationCount ≤ r → s.reservation r = none

/-- **The pool invariant.** -/
structure Inv (s : Preparations Source CommitState) : Prop extends s.Base where
  ready : s.readyCount ≤ s.capacity
  /-- The result of an entry is out exactly when its load has ended. -/
  results : ∀ e, (s.entry e).loads = true ↔ e < s.entryCount ∧ (s.entry e).result = .pending

theorem inTable_iff : s.inTable e = true ↔ s.entries.lookup (s.entry e).id = some e := beq_iff_eq

variable {id : String}

theorem Base.lookup_iff (h : s.Base) : s.entries.lookup id = some e ↔ s.inTable e = true ∧ (s.entry e).id = id := by
  constructor
  · intro hlookup
    obtain ⟨-, rfl⟩ := h.known id e hlookup
    exact ⟨inTable_iff.mpr hlookup, rfl⟩
  · rintro ⟨htable, rfl⟩
    exact inTable_iff.mp htable

/-! ## Changes about one entry -/

def About (call : Call Source) (e : Nat) : Prop := ∀ e', call.target = some e' → e' = e

/-- Only the entry `e` changes: its fields, place, calls, promises and reservations. -/
structure Focus (s s' : Preparations Source CommitState) (e : Nat) : Prop where
  entry : ∀ e', e' ≠ e → s'.entry e' = s.entry e'
  others : s'.entries.entries.filter (·.2 ≠ e) = s.entries.entries.filter (·.2 ≠ e)
  call : ∀ c, s'.call c = s.call c ∨ About (s.call c) e ∧ About (s'.call c) e ∧ c < s'.callCount
  settled : ∀ p, s'.settled p = s.settled p ∨ (s.entry e).reservationSettled = some p ∨ s.promiseCount ≤ p
  taken : ∀ p, (s'.entry e).reservationSettled = some p → (s.entry e).reservationSettled = some p ∨ s.promiseCount ≤ p
  reservation : ∀ r, s'.reservation r = s.reservation r ∨ s.reservationCount ≤ r ∧ r < s'.reservationCount
  promises : s.promiseCount ≤ s'.promiseCount
  calls : s.callCount ≤ s'.callCount
  reservations : s.reservationCount ≤ s'.reservationCount
  entries : ∀ e', e' ≠ e → (e' < s'.entryCount ↔ e' < s.entryCount)
  counted : s.entryCount ≤ s'.entryCount
  named : (∀ id, s.entries.lookup id = some e → (s.entry e).id = id) →
    ∀ id, s'.entries.lookup id = some e → (s'.entry e).id = id
  capacity : s'.capacity = s.capacity

theorem Focus.refl : Focus s s e where
  entry _ _ := rfl
  others := rfl
  call _ := .inl rfl
  settled _ := .inl rfl
  taken _ hp := .inl hp
  reservation _ := .inl rfl
  promises := le_rfl
  calls := le_rfl
  reservations := le_rfl
  entries _ _ := Iff.rfl
  counted := le_rfl
  named hnamed := hnamed
  capacity := rfl

theorem Focus.trans {s'' : Preparations Source CommitState} (h : Focus s s' e) (h' : Focus s' s'' e) :
    Focus s s'' e where
  entry e' hne := (h'.entry e' hne).trans (h.entry e' hne)
  others := h'.others.trans h.others
  call c := by
    rcases h'.call c with hsame | ⟨hmid, hlast, hlt⟩
    · rcases h.call c with hsame' | ⟨hfirst, hmid, hlt⟩
      · exact .inl (hsame.trans hsame')
      · refine .inr ⟨hfirst, hsame ▸ hmid, ?_⟩
        have := h'.calls
        omega
    · refine .inr ⟨?_, hlast, hlt⟩
      rcases h.call c with hsame' | ⟨hfirst, -, -⟩
      · exact hsame' ▸ hmid
      · exact hfirst
  settled p := by
    have hle := h.promises
    rcases h'.settled p with hsame | htaken | hnew
    · rcases h.settled p with hsame' | hold
      · exact .inl (hsame.trans hsame')
      · exact .inr hold
    · exact .inr (h.taken p htaken)
    · exact .inr (.inr (by omega))
  taken p hp := by
    have hle := h.promises
    rcases h'.taken p hp with hmid | hnew
    · exact h.taken p hmid
    · exact .inr (by omega)
  reservation r := by
    have hle := h.reservations
    have hle' := h'.reservations
    rcases h'.reservation r with hsame | ⟨hnew, hlt⟩
    · rcases h.reservation r with hsame' | ⟨hnew, hlt⟩
      · exact .inl (hsame.trans hsame')
      · exact .inr ⟨hnew, by omega⟩
    · exact .inr ⟨by omega, hlt⟩
  promises := h.promises.trans h'.promises
  calls := h.calls.trans h'.calls
  reservations := h.reservations.trans h'.reservations
  entries e' hne := (h'.entries e' hne).trans (h.entries e' hne)
  counted := h.counted.trans h'.counted
  named := h'.named ∘ h.named
  capacity := h'.capacity.trans h.capacity

variable {e' : Nat}

theorem Focus.lookup (h : Focus s s' e) (hne : e' ≠ e) (id : String) :
    s'.entries.lookup id = some e' ↔ s.entries.lookup id = some e' := by
  have hmem : ∀ m : InsertionMap String Nat, (id, e') ∈ m.entries ↔ (id, e') ∈ m.entries.filter (·.2 ≠ e) := by
    intro m
    simp [hne]
  rw [InsertionMap.lookup_eq_some_iff, InsertionMap.lookup_eq_some_iff, hmem, hmem, h.others]

/-- **The other entries see nothing.** -/
theorem Focus.frame (h : Focus s s' e) (hs : s.Base) (hne : e' ≠ e) : Frame s s' e' where
  entry := h.entry e' hne
  table := by
    rw [Bool.eq_iff_iff, inTable_iff, inTable_iff, h.entry e' hne]
    exact h.lookup hne _
  calls c hc := by
    rcases h.call c with hsame | ⟨habout, habout', -⟩
    · exact hsame
    · rcases hc with hc | hc
      · exact absurd (habout e' hc) hne
      · exact absurd (habout' e' hc) hne
  settled p hp := by
    have hlt : p < s.promiseCount := by
      rcases hp with hp | ⟨c, hc⟩
      · exact ((hs.entryInv e').promise p hp).1
      · exact ((hs.entryInv e').waiting c p hc).1
    rcases h.settled p with hsame | howned | hnew
    · exact hsame
    · obtain ⟨-, hopen⟩ := (hs.entryInv e).promise p howned
      rcases hp with hp | ⟨c, hc⟩
      · exact absurd (hs.owner e' e p hp howned) hne
      · exact absurd (hs.owner e' e p (((hs.entryInv e').waiting c p hc).2 hopen) howned) hne
    · omega
  reservation r hr := by
    obtain ⟨reservation, hsome, -⟩ := (hs.entryInv e').reservation r hr
    rcases h.reservation r with hsame | ⟨hnew, -⟩
    · exact hsame
    · rw [hs.unusedReservation r hnew] at hsome
      cases hsome
  promises := h.promises

/-- **Frame.**  A change about one entry keeps the invariant of the pool when it keeps that entry's. -/
theorem Base.focus (hs : s.Base) (h : Focus s s' e) (he : e < s'.entryCount) (hinv : s'.EntryInv e) : s'.Base where
  known id e' hlookup := by
    by_cases hne : e' = e
    · subst hne
      exact ⟨he, h.named (fun id' hlookup' => (hs.known id' _ hlookup').2) id hlookup⟩
    · rw [h.entry e' hne, h.entries e' hne]
      exact hs.known id e' ((h.lookup hne id).mp hlookup)
  entryInv e' := by
    by_cases hne : e' = e
    · exact hne ▸ hinv
    · exact (hs.entryInv e').frame (h.frame hs hne)
  owner e₁ e₂ p h₁ h₂ := by
    have hother : ∀ e', e' ≠ e → (s'.entry e').reservationSettled = some p →
        (s'.entry e).reservationSettled = some p → False := by
      intro e' hne hp hpe
      rw [h.entry e' hne] at hp
      have hlt := ((hs.entryInv e').promise p hp).1
      rcases h.taken p hpe with howned | hnew
      · exact hne (hs.owner e' e p hp howned)
      · omega
    by_cases hne₁ : e₁ = e
    · by_cases hne₂ : e₂ = e
      · rw [hne₁, hne₂]
      · exact (hother e₂ hne₂ h₂ (hne₁ ▸ h₁)).elim
    · by_cases hne₂ : e₂ = e
      · exact (hother e₁ hne₁ h₁ (hne₂ ▸ h₂)).elim
      · rw [h.entry e₁ hne₁] at h₁
        rw [h.entry e₂ hne₂] at h₂
        exact hs.owner e₁ e₂ p h₁ h₂
  calls c e' hc := by
    by_cases hne : e' = e
    · exact hne ▸ he
    · rw [h.entries e' hne]
      rcases h.call c with hsame | ⟨-, habout, -⟩
      · exact hs.calls c e' (hsame ▸ hc)
      · exact absurd (habout e' hc) hne
  unusedCall c hle := by
    have hcount := h.calls
    rcases h.call c with hsame | ⟨-, -, hlt⟩
    · rw [hsame]
      exact hs.unusedCall c (by omega)
    · omega
  unusedReservation r hle := by
    have hcount := h.reservations
    rcases h.reservation r with hsame | ⟨-, hlt⟩
    · rw [hsame]
      exact hs.unusedReservation r (by omega)
    · omega

/-! ## How many entries are ready -/

def othersReady (s : Preparations Source CommitState) (e : Nat) : Nat :=
  (s.entries.entries.filter (·.2 ≠ e)).countP fun kv => (s.entry kv.2).phase = .ready

theorem Focus.othersReady (h : Focus s s' e) : s'.othersReady e = s.othersReady e := by
  rw [Preparations.othersReady, Preparations.othersReady, h.others]
  refine countP_congr fun kv hkv => ?_
  rw [h.entry kv.2 (by simpa using (mem_filter.mp hkv).2)]

theorem Base.readyCount_eq (h : s.Base) (e : Nat) : s.readyCount = s.othersReady e
    + if s.inTable e = true ∧ (s.entry e).phase = .ready then 1 else 0 := by
  rw [readyCount, Preparations.othersReady]
  by_cases htable : s.inTable e = true
  · have hperm := perm_of_lookup (inTable_iff.mp htable)
    have hothers : (s.entries.erase (s.entry e).id).entries.filter (·.2 ≠ e)
        = (s.entries.erase (s.entry e).id).entries := by
      refine filter_eq_self.mpr fun kv hkv => ?_
      obtain ⟨hkey, hmem⟩ := mem_entries_erase.mp hkv
      simp only [ne_eq, decide_eq_true_eq]
      rintro rfl
      exact hkey (h.known kv.1 kv.2 (lookup_eq_some_iff.mpr hmem)).2.symm
    rw [hperm.countP_eq, (hperm.filter _).countP_eq, countP_cons, filter_cons_of_neg (by simp), hothers]
    simp [htable]
  · have hothers : s.entries.entries.filter (·.2 ≠ e) = s.entries.entries := by
      refine filter_eq_self.mpr fun kv hkv => ?_
      simp only [ne_eq, decide_eq_true_eq]
      rintro rfl
      exact htable (h.lookup_iff.mp (lookup_eq_some_iff.mpr hkv)).1
    rw [hothers]
    simp [htable]

/-! ## The pieces of an action -/

theorem focus_update (s : Preparations Source CommitState) (e : Nat)
    {f : PreparationEntry Source → PreparationEntry Source}
    (hf : ∀ entry, (f entry).reservationSettled = entry.reservationSettled)
    (hid : ∀ entry, (f entry).id = entry.id) : Focus s (s.update e f) e where
  entry e' hne := update_of_ne hne _ _
  others := rfl
  call _ := .inl rfl
  settled _ := .inl rfl
  taken p hp := by
    simp only [update, update_self, hf] at hp
    exact .inl hp
  reservation _ := .inl rfl
  promises := le_rfl
  calls := le_rfl
  reservations := le_rfl
  entries _ _ := Iff.rfl
  counted := le_rfl
  named hnamed id hlookup := by
    simp only [update, update_self, hid]
    exact hnamed id hlookup
  capacity := rfl

theorem settleReservation_entry (s : Preparations Source CommitState) (e : Nat) : (s.settleReservation e).entry
      = Function.update s.entry e { s.entry e with reservationSettled := none } := by
  rw [settleReservation]
  split
  · next hnone =>
    have hsame : { s.entry e with reservationSettled := none } = s.entry e := by rw [← hnone]
    rw [hsame, update_eq_self]
  · rfl

theorem settleReservation_settled (s : Preparations Source CommitState) (e p : Nat) : (s.settleReservation e).settled p
      = (s.settled p || (s.entry e).reservationSettled == some p) := by
  rw [settleReservation]
  split
  · next hnone => simp [hnone]
  · next q hsome =>
    by_cases hp : p = q
    · simp [hp, hsome]
    · simp [hp, hsome, Ne.symm hp]

theorem settleReservation_eq (s : Preparations Source CommitState) (e : Nat) : s.settleReservation e = { s with
      entry := (s.settleReservation e).entry, settled := (s.settleReservation e).settled } := by
  rw [settleReservation]
  split <;> rfl

theorem focus_settleReservation (s : Preparations Source CommitState) (e : Nat) :
    Focus s (s.settleReservation e) e := by
  rw [settleReservation_eq]
  exact
    { entry := fun e' hne => by
        rw [settleReservation_entry]
        exact update_of_ne hne _ _
      others := rfl
      call := fun _ => .inl rfl
      settled := fun p => by
        rw [settleReservation_settled]
        by_cases hp : (s.entry e).reservationSettled = some p
        · exact .inr (.inl hp)
        · exact .inl (by simp [hp])
      taken := fun p hp => by simp [settleReservation_entry] at hp
      reservation := fun _ => .inl rfl
      promises := le_rfl
      calls := le_rfl
      reservations := le_rfl
      entries := fun _ _ => Iff.rfl
      counted := le_rfl
      named := fun hnamed id hlookup => by
        rw [settleReservation_entry]
        simpa using hnamed id hlookup
      capacity := rfl }

theorem focus_entries {entries : InsertionMap String Nat}
    (h : entries.entries.filter (·.2 ≠ e) = s.entries.entries.filter (·.2 ≠ e))
    (hnamed : ∀ id, entries.lookup id = some e → (s.entry e).id = id ∨ s.entries.lookup id = some e) :
    Focus s { s with entries } e where
  entry _ _ := rfl
  others := h
  call _ := .inl rfl
  settled _ := .inl rfl
  taken _ hp := .inl hp
  reservation _ := .inl rfl
  promises := le_rfl
  calls := le_rfl
  reservations := le_rfl
  entries _ _ := Iff.rfl
  counted := le_rfl
  named hold id hlookup := (hnamed id hlookup).elim (fun hid => hid) (hold id)
  capacity := rfl

theorem focus_setCall (hold : About (s.call c) e) (hnew : About call e)
    (hc : c < s.callCount) : Focus s (s.setCall c call) e where
  entry _ _ := rfl
  others := rfl
  call c' := by
    by_cases heq : c' = c
    · subst heq
      exact .inr ⟨hold, by simpa [setCall] using hnew, hc⟩
    · exact .inl (update_of_ne heq _ _)
  settled _ := .inl rfl
  taken _ hp := .inl hp
  reservation _ := .inl rfl
  promises := le_rfl
  calls := le_rfl
  reservations := le_rfl
  entries _ _ := Iff.rfl
  counted := le_rfl
  named hnamed := hnamed
  capacity := rfl

theorem others_erase (hid : ∀ e', s.entries.lookup id = some e' → e' = e) :
    (s.entries.erase id).entries.filter (·.2 ≠ e) = s.entries.entries.filter (·.2 ≠ e) := by
  rw [erase, filter_filter]
  refine filter_congr fun kv hkv => ?_
  have hlookup := lookup_eq_some_iff.mpr hkv
  by_cases hkey : kv.1 = id
  · have hvalue : kv.2 = e := hid kv.2 (hkey ▸ hlookup)
    simp [hvalue]
  · simp [hkey]

end Preparations

end CocoHarness.Persistence
