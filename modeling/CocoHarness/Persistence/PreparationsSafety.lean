/-
# CocoHarness.Persistence.PreparationsSafety — exclusive, bounded and never stranded.

Read off it: an id has at most one holder, appends to it are admitted exactly when it has none, the ready entries
fit, a call waits for a reservation only while that reservation holds the id, and for a load only while the load
runs.
-/
import CocoHarness.Persistence.PreparationsSteps

namespace CocoHarness.Persistence

open Lib SessionLog Option

namespace Preparations

variable {Source CommitState : Type} {s s' : Preparations Source CommitState} {e : Nat}

/-! ## The capacity is fixed -/

@[simp] theorem capacity_update (s : Preparations Source CommitState) (e : Nat)
    (f : PreparationEntry Source → PreparationEntry Source) : (s.update e f).capacity = s.capacity := rfl

@[simp] theorem capacity_setCall (s : Preparations Source CommitState) (c : Nat) (call : Call Source) :
    (s.setCall c call).capacity = s.capacity := rfl

@[simp] theorem capacity_settleReservation (s : Preparations Source CommitState) (e : Nat) :
    (s.settleReservation e).capacity = s.capacity := (focus_settleReservation s e).capacity

@[simp] theorem capacity_remove (s : Preparations Source CommitState) (e : Nat) :
    (s.remove e).capacity = s.capacity := (focus_remove s e).capacity

@[simp] theorem capacity_touch (s : Preparations Source CommitState) (e : Nat) :
    (s.touch e).capacity = s.capacity := by
  rw [touch_eq]
  split
  · rfl
  · split <;> rfl

@[simp] theorem capacity_makeReady (s : Preparations Source CommitState) (e : Nat) :
    (s.makeReady e).capacity = s.capacity := by
  rw [makeReady]
  split <;> simp

@[simp] theorem capacity_entryFor (s : Preparations Source CommitState) (id : String) :
    (s.entryFor id).1.capacity = s.capacity := by
  rw [entryFor]
  split <;> rfl

@[simp] theorem capacity_tryReserve (s : Preparations Source CommitState) (c e : Nat) :
    (s.tryReserve c e).capacity = s.capacity := by
  unfold tryReserve
  split
  · rfl
  · split
    · split <;> rfl
    · rfl

@[simp] theorem capacity_committed (s : Preparations Source CommitState) (c e : Nat)
    (outcome : Commit Source CommitState) : (s.committed c e outcome).capacity = s.capacity := by
  rcases outcome with _ | _ | ⟨source, state, _ | _⟩ <;> unfold committed <;> simp
  split <;> rfl

theorem step_capacity [DecidableEq Source] {act : PreparationAct Source CommitState}
    (h : s.step act = some s') : s'.capacity = s.capacity := by
  cases act with
  | inspect id | reserve id =>
    cases h
    exact capacity_entryFor s id
  | loaded e source =>
    obtain ⟨-, rfl⟩ := ite_none_right_eq_some.mp h |>.imp id Option.some.inj
    unfold loaded
    dsimp only
    split <;> simp
  | loadFailed e reason =>
    obtain ⟨-, rfl⟩ := ite_none_right_eq_some.mp h |>.imp id Option.some.inj
    simp [loadFailed]
  | resume c =>
    rw [step, resume] at h
    split at h
    · split at h <;> cases h
      · rw [inspected]
        split <;> simp
      · rfl
    · split at h <;> cases h <;> simp
    · split at h <;> cases h
      simp
    · cases h
    · cases h
  | abort c reason =>
    rw [step, abort] at h
    split at h <;> cases h <;> rfl
  | commit c outcome =>
    rw [step] at h
    split at h <;> cases h
    simp
  | attach r =>
    obtain ⟨reservation, -, rfl⟩ := map_eq_some_iff.mp h
    rw [attach]
    split <;> simp
  | discard r =>
    obtain ⟨reservation, -, rfl⟩ := map_eq_some_iff.mp h
    rw [discard]
    split <;> simp
  | release r reusable =>
    obtain ⟨reservation, -, rfl⟩ := map_eq_some_iff.mp h
    rw [release]
    split
    · rfl
    · split <;> simp
  | invalidate id =>
    cases h
    rw [invalidate]
    split <;> simp
  | discardReady id expected =>
    cases h
    rw [discardReady]
    split
    · rfl
    · split
      · rfl
      · split <;> simp
  | takeReady id =>
    cases h
    show (s.takeReady id).1.capacity = s.capacity
    rw [takeReady]
    split
    · rfl
    · split <;> simp

/-! ## Holders -/

variable {id : String}

theorem Base.holds_committing (hs : s.Base) {c : Nat} (h : s.Holds id (.committing c)) :
    ∃ e, s.call c = .committing e ∧ s.entries.lookup id = some e ∧ s.inTable e = true
      ∧ (s.entry e).phase = .committing := by
  obtain ⟨e, hc, hlookup⟩ := h
  have hin := (hs.lookup_iff.mp hlookup).1
  exact ⟨e, hc, hlookup, hin, (hs.entryInv e).committing c hc hin⟩

theorem Base.holds_reserved (hs : s.Base) {r : Nat} (h : s.Holds id (.reserved r)) :
    ∃ e, s.entries.lookup id = some e ∧ (s.entry e).reservation = some r ∧ (s.entry e).phase = .reserved := by
  obtain ⟨reservation, -, hlookup, hr⟩ := h
  have hin := (hs.lookup_iff.mp hlookup).1
  exact ⟨_, hlookup, hr, ((hs.entryInv _).reserved hin).mpr (by rw [hr]; rfl)⟩

theorem Base.holds_unique (hs : s.Base) {x y : Holder} (hx : s.Holds id x) (hy : s.Holds id y) : x = y := by
  cases x with
  | committing c =>
    obtain ⟨e, hc, hlookup, hin, hphase⟩ := hs.holds_committing hx
    cases y with
    | committing c' =>
      obtain ⟨e', hc', hlookup', -, -⟩ := hs.holds_committing hy
      cases hlookup.symm.trans hlookup'
      rw [(hs.entryInv e).unique c c' hc hc' hin]
    | reserved r =>
      obtain ⟨e', hlookup', -, hphase'⟩ := hs.holds_reserved hy
      cases hlookup.symm.trans hlookup'
      rw [hphase] at hphase'
      cases hphase'
  | reserved r =>
    obtain ⟨e, hlookup, hr, hphase⟩ := hs.holds_reserved hx
    cases y with
    | committing c' =>
      obtain ⟨e', -, hlookup', -, hphase'⟩ := hs.holds_committing hy
      cases hlookup.symm.trans hlookup'
      rw [hphase] at hphase'
      cases hphase'
    | reserved r' =>
      obtain ⟨e', hlookup', hr', -⟩ := hs.holds_reserved hy
      cases hlookup.symm.trans hlookup'
      rw [hr] at hr'
      rw [Option.some.inj hr']

theorem Base.exists_holder (hs : s.Base) (hlookup : s.entries.lookup id = some e)
    (hphase : (s.entry e).phase = .committing ∨ (s.entry e).phase = .reserved) :
    ∃ holder, s.Holds id holder := by
  have hin := (hs.lookup_iff.mp hlookup).1
  rcases hphase with hphase | hphase
  · obtain ⟨c, hc⟩ := (hs.entryInv e).committer hin hphase
    exact ⟨.committing c, e, hc, hlookup⟩
  · obtain ⟨r, hr⟩ := isSome_iff_exists.mp (((hs.entryInv e).reserved hin).mp hphase)
    obtain ⟨reservation, hsome, rfl⟩ := (hs.entryInv e).reservation r hr
    exact ⟨.reserved r, reservation, hsome, hlookup, hr⟩

/-- **Appends are admitted exactly when nobody holds the id.** -/
theorem Base.assertWritable_iff (hs : s.Base) (id : String) :
    s.assertWritable id = .ok () ↔ ∀ holder, ¬ s.Holds id holder := by
  cases hlookup : s.entries.lookup id with
  | none =>
    refine iff_of_true (by simp [assertWritable, hlookup]) fun holder hholds => ?_
    cases holder with
    | committing c =>
      obtain ⟨e, -, hsome, -⟩ := hs.holds_committing hholds
      simp [hlookup] at hsome
    | reserved r =>
      obtain ⟨e, hsome, -⟩ := hs.holds_reserved hholds
      simp [hlookup] at hsome
  | some e =>
    by_cases hphase : (s.entry e).phase = .committing ∨ (s.entry e).phase = .reserved
    · obtain ⟨holder, hholds⟩ := hs.exists_holder hlookup hphase
      refine iff_of_false ?_ fun hnone => hnone holder hholds
      rcases hphase with hphase | hphase <;> simp [assertWritable, hlookup, hphase]
    · rw [not_or] at hphase
      refine iff_of_true ?_ fun holder hholds => ?_
      · rw [assertWritable, hlookup, map_some]
        cases h : (s.entry e).phase <;> simp_all
      · cases holder with
        | committing c =>
          obtain ⟨e', -, hsome, -, hphase'⟩ := hs.holds_committing hholds
          cases hlookup.symm.trans hsome
          exact hphase.1 hphase'
        | reserved r =>
          obtain ⟨e', hsome, -, hphase'⟩ := hs.holds_reserved hholds
          cases hlookup.symm.trans hsome
          exact hphase.2 hphase'

/-! ## Waiters -/

theorem Base.waiting_held (hs : s.Base) {c p : Nat} (hc : s.call c = .waiting e p)
    (hopen : s.settled p = false) : s.inTable e = true ∧ ∃ holder, s.Holds (s.entry e).id holder := by
  have hforce := ((hs.entryInv e).waiting c p hc).2 hopen
  obtain ⟨hin, hphase⟩ := (hs.entryInv e).held.mp (by rw [hforce]; rfl)
  exact ⟨hin, hs.exists_holder (inTable_iff.mp hin) hphase⟩

/-- A call that waits for a reservation goes on, to its end, once the entry has left the table. -/
theorem Base.waiting_out (hs : s.Base) {c p : Nat} (hc : s.call c = .waiting e p)
    (hout : s.inTable e = false) : s.resume c = some (s.setCall c (.done .undefined)) := by
  have hdone : s.settled p = true := by
    rw [← Bool.not_eq_false]
    intro hopen
    rw [(hs.waiting_held hc hopen).1] at hout
    cases hout
  simp [resume, hc, hdone, tryReserve, hout]

theorem Inv.load_waiter (hs : s.Inv) {c : Nat} (hc : s.call c = .inspect e ∨ s.call c = .loading e) :
    s.resume c = none ↔ (s.entry e).loads = true := by
  have he : e < s.entryCount := by rcases hc with hc | hc <;> exact hs.calls c e (by rw [hc]; rfl)
  rw [hs.results e]
  rcases hc with hc | hc <;> cases hresult : (s.entry e).result <;> 
    simp [Preparations.resume, hc, hresult, he]

/-! ## Runs -/

theorem inv_empty (capacity : Nat) : ({ capacity } : Preparations Source CommitState).Inv where
  known id e h := by simp at h
  entryInv e := .rest rfl (fun h => by simp [inTable] at h) (fun c p h => by cases h)
    (fun r h => by cases h)
  owner e e' p h := by cases h
  calls c e h := by cases h
  unusedCall c _ := rfl
  unusedReservation r _ := rfl
  ready := Nat.zero_le _
  results e := by simp

/-- **Exclusive, bounded, never stranded.**  After any run an id has at most one holder, appends to it are admitted
exactly when it has none, and no more entries are ready than fit. A call that has to wait for a reservation waits for
an entry of the table that somebody holds; when it has left the table the call goes on to its end; and a call that
waits for a load can go on exactly when the load has ended. -/
theorem preparations_run [DecidableEq Source] {capacity : Nat} {acts : List (PreparationAct Source CommitState)}
    (h : Machine.exec step { capacity } acts = some s) :
    (∀ id x y, s.Holds id x → s.Holds id y → x = y)
    ∧ (∀ id, s.assertWritable id = .ok () ↔ ∀ holder, ¬ s.Holds id holder)
    ∧ s.readyCount ≤ capacity
    ∧ (∀ c e p, s.call c = .waiting e p →
      (s.settled p = false → s.inTable e = true ∧ ∃ holder, s.Holds (s.entry e).id holder)
      ∧ (s.inTable e = false → s.resume c = some (s.setCall c (.done .undefined))))
    ∧ ∀ c e, s.call c = .inspect e ∨ s.call c = .loading e → (s.resume c = none ↔ (s.entry e).loads = true) := by
  obtain ⟨hs, hcapacity⟩ : s.Inv ∧ s.capacity = capacity :=
    Machine.exec_invariant (I := fun s => s.Inv ∧ s.capacity = capacity)
      (fun act _ s s' hs hstep => ⟨hs.1.step hstep, (step_capacity hstep).trans hs.2⟩)
      ⟨inv_empty capacity, rfl⟩ h
  exact ⟨fun _ _ _ hx hy => hs.holds_unique hx hy, hs.assertWritable_iff, hcapacity ▸ hs.ready,
    fun c e p hc => ⟨hs.waiting_held hc, hs.waiting_out hc⟩, fun c e hc => hs.load_waiter hc⟩

/-- A call waits for a reservation of an entry that is invalidated meanwhile: it goes on. -/
theorem preparations_run_of_invalidated : ∃ s : Preparations Nat Unit,
      Machine.exec step { capacity := 1 } [.reserve "a", .loaded 0 7, .resume 0, .reserve "a", .resume 1,
        .invalidate "a"] = some s
      ∧ s.call 1 = .waiting 0 0 ∧ s.resume 1 = some (s.setCall 1 (.done .undefined))
      ∧ s.assertWritable "a" = .ok () ∧ s.readyCount ≤ 1 := by
  obtain ⟨s, hrun, hcall, hout, hwritable⟩ : ∃ s : Preparations Nat Unit,
      Machine.exec step { capacity := 1 } [.reserve "a", .loaded 0 7, .resume 0, .reserve "a", .resume 1,
        .invalidate "a"] = some s
      ∧ s.call 1 = .waiting 0 0 ∧ s.inTable 0 = false ∧ s.assertWritable "a" = .ok () :=
    ⟨_, rfl, rfl, rfl, rfl⟩
  obtain ⟨-, -, hready, hwaiting, -⟩ := preparations_run hrun
  exact ⟨s, hrun, hcall, (hwaiting 1 0 0 hcall).2 hout, hwritable, hready⟩

/-- A caller of `inspect` still waits for the load after its entry has left the table. -/
theorem load_waiter_outlives_entry : ∃ s : Preparations Nat Unit,
      Machine.exec step { capacity := 1 } [.inspect "a", .invalidate "a"] = some s
      ∧ s.call 0 = .inspect 0 ∧ s.inTable 0 = false ∧ s.resume 0 = none :=
  ⟨_, rfl, rfl, rfl, rfl⟩

end Preparations

end CocoHarness.Persistence
