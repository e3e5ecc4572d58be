/-
# CocoHarness.Projection.RegistryInvariant — every cell is the fold of what its drive has seen.

While an event of a session is being driven, the units before the drive's place have seen it and the units from there
on have not; otherwise all have seen the whole log.  A cell is the fold of what its unit has seen (`Inv.cells`).
-/
import CocoHarness.Projection.Registry

namespace CocoHarness.Projection

open Lib SessionLog Function List Nat Reducer

variable {State : Type}

def Progress.pending : Progress → Nat → Bool
  | .before, _ => true
  | .driving next _, id => next ≤ id
  | .after, _ => false

namespace Registry

variable {s s' : Registry State}

/-- Whether an event of the session is committed that the registration has still to see. -/
def pending (s : Registry State) (session id : Nat) : Bool :=
  s.dispatches.any fun d => d.session = session && d.progress.pending id

def seen (s : Registry State) (session id : Nat) : List SessionEvent :=
  if s.pending session id then (s.log session).dropLast else s.log session

/-! ## The condition -/

def NoCells (s : Registry State) (session next : Nat) : Prop :=
  ∀ kv ∈ s.registrations.entries, next ≤ kv.2.id → (s.cells kv.2.id session).isNone = true

/-- Every registered unit has seen the whole log of the session. -/
def Settled (s : Registry State) (session : Nat) : Prop :=
  ∀ kv ∈ s.registrations.entries, s.pending session kv.2.id = false

/-- The schema of a unit accepts the view it changes to with the last event of the log. -/
def Accepts (definition : ErasedDefinition State) (log : List SessionEvent) : Prop :=
  (log.getLast?.bind (definition.apply (definition.reducer.fold log.dropLast))).all
    (fun state => (definition.schema (definition.view state)).isOk) = true

/-- **The condition on an action.**  A session is read only when every unit has seen its whole log; its events reach
the drive, and the drive is not broken off, where a unit has a cell. -/
def Meets (s : Registry State) : RegistryAct State → Prop
  | .snapshot session | .checkpoint session => s.Settled session
  | .append session _ reached => reached = true ∨ s.NoCells session 0
  | .driveNext =>
    match s.dispatches with
    | [] => True
    | dispatch :: _ =>
      match dispatch.progress with
      | .driving next false =>
        match s.registrations.entries.find? fun kv => next ≤ kv.2.id with
        | none => True
        | some kv => s.listeners = 0 ∨ Accepts kv.2.definition (s.log dispatch.session)
          ∨ s.NoCells dispatch.session (kv.2.id + 1)
      | _ => True
  | .notifyThrows =>
    match s.dispatches with
    | [] => True
    | dispatch :: _ =>
      match dispatch.progress with
      | .driving next true => s.NoCells dispatch.session next
      | _ => True
  | _ => True

instance (s : Registry State) (session next : Nat) : Decidable (s.NoCells session next) :=
  inferInstanceAs (Decidable (∀ kv ∈ s.registrations.entries, _))

instance (s : Registry State) (session : Nat) : Decidable (s.Settled session) :=
  inferInstanceAs (Decidable (∀ kv ∈ s.registrations.entries, _))

instance (definition : ErasedDefinition State) (log : List SessionEvent) :
    Decidable (Accepts definition log) := inferInstanceAs (Decidable (_ = _))

instance (s : Registry State) (act : RegistryAct State) : Decidable (s.Meets act) := by
  unfold Meets
  repeat' split
  all_goals infer_instance

/-! ## The invariant -/

/-- **The registry invariant.** -/
structure Inv (s : Registry State) : Prop where
  numbered : ∀ session, Reducer.NumberedFrom (·.seq) 0 (s.log session)
  keys : ∀ kv ∈ s.registrations.entries, kv.2.definition.key = kv.1
  known : ∀ kv ∈ s.registrations.entries, kv.2.id < s.registrationCount
  /-- The table lists the registrations in the order they were made in. -/
  sorted : (s.registrations.entries.map fun kv => kv.2.id).Pairwise (· < ·)
  unused : ∀ id session, s.registrationCount ≤ id → s.cells id session = none
  sessions : (s.dispatches.map (·.session)).Nodup
  last : ∀ d ∈ s.dispatches, (s.log d.session).getLast? = some d.event
  cells : ∀ kv ∈ s.registrations.entries, ∀ session cell, s.cells kv.2.id session = some cell →
    cell = buildCell kv.2.definition (s.seen session kv.2.id)

variable {d : Dispatch} {rest : List Dispatch}

theorem pending_cons (h : s.dispatches = d :: rest) (session id : Nat) : s.pending session id
      = (decide (d.session = session) && d.progress.pending id
        || rest.any fun d => d.session = session && d.progress.pending id) := by
  rw [pending, h, any_cons]

theorem Inv.pending_head (hs : s.Inv)
    (h : s.dispatches = d :: rest) (id : Nat) : s.pending d.session id = d.progress.pending id := by
  have hnodup := hs.sessions
  rw [h, map_cons, nodup_cons] at hnodup
  have hrest : (rest.any fun d' => decide (d'.session = d.session) && d'.progress.pending id) = false := by
    rw [any_eq_false]
    intro d' hd' heq
    rw [Bool.and_eq_true, decide_eq_true_eq] at heq
    exact hnodup.1 (mem_map.mpr ⟨d', hd', heq.1⟩)
  rw [pending_cons h, hrest]
  simp

theorem Inv.entry_eq (hs : s.Inv) {kv kv' : String × Registration State}
    (h : kv ∈ s.registrations.entries) (h' : kv' ∈ s.registrations.entries)
    (hid : kv.2.id = kv'.2.id) : kv = kv' := by
  have hnodup : (s.registrations.entries.map fun kv => kv.2.id).Nodup := hs.sorted.imp fun hlt => ne_of_lt hlt
  exact inj_on_of_nodup_map hnodup h h' hid

/-! ## Watermarks -/

theorem buildCell_observedSeq (definition : ErasedDefinition State) {log : List SessionEvent}
    (h : NumberedFrom (·.seq) 0 log) :
    (buildCell definition log).observedSeq = (log.length : Int) - 1 := by
  have := h.getLast
  rw [buildCell]
  simpa using this

theorem buildCell_snoc (definition : ErasedDefinition State) (log : List SessionEvent)
    (event : SessionEvent) : buildCell definition (log ++ [event])
      = { state := (definition.apply (buildCell definition log).state event).getD (buildCell definition log).state
          observedSeq := event.seq } := by
  rw [buildCell, buildCell, fold_snoc]
  simp [ErasedDefinition.reducer]

/-! ## The table -/

/-- The table changes: each registration was there under its key and id, or is the next new one. -/
theorem Inv.table (hs : s.Inv) {registrations : InsertionMap String (Registration State)} {count : Nat}
    (hcount : s.registrationCount ≤ count)
    (hentries : ∀ kv ∈ registrations.entries, (∃ kv' ∈ s.registrations.entries, kv'.1 = kv.1 ∧ kv'.2.id = kv.2.id
        ∧ kv'.2.definition = kv.2.definition)
      ∨ kv.2.id = s.registrationCount ∧ s.registrationCount < count ∧ kv.2.definition.key = kv.1)
    (hsorted : (registrations.entries.map fun kv => kv.2.id).Pairwise (· < ·)) :
    { s with registrations, registrationCount := count }.Inv where
  numbered := hs.numbered
  keys kv hkv := by
    rcases hentries kv hkv with ⟨kv', hkv', hkey, -, hdefinition⟩ | ⟨-, -, hkey⟩
    · rw [← hdefinition, ← hkey]
      exact hs.keys kv' hkv'
    · exact hkey
  known kv hkv := by
    rcases hentries kv hkv with ⟨kv', hkv', -, hid, -⟩ | ⟨hid, hlt, -⟩
    · rw [← hid]
      exact lt_of_lt_of_le (hs.known kv' hkv') hcount
    · rw [hid]
      exact hlt
  sorted := hsorted
  unused id session hle := hs.unused id session (le_trans hcount hle)
  sessions := hs.sessions
  last := hs.last
  cells kv hkv session cell hcell := by
    rcases hentries kv hkv with ⟨kv', hkv', -, hid, hdefinition⟩ | ⟨hid, -, -⟩
    · rw [← hid] at hcell
      rw [hs.cells kv' hkv' session cell hcell, hdefinition, hid]
      rfl
    · have hnone := hs.unused kv.2.id session hid.ge
      rw [show s.cells kv.2.id session = some cell from hcell] at hnone
      cases hnone

theorem Inv.overwrite (hs : s.Inv) {key : String} {old new : Registration State}
    (hlookup : s.registrations.lookup key = some old) (hid : new.id = old.id)
    (hdefinition : new.definition = old.definition) :
    { s with registrations := s.registrations.set key new }.Inv := by
  have hmem := InsertionMap.lookup_eq_some_iff.mp hlookup
  refine hs.table (le_refl _) (fun kv hkv => .inl ?_) ?_
  · rcases InsertionMap.mem_entries_set hkv with rfl | ⟨-, hkv⟩
    · exact ⟨_, hmem, rfl, hid.symm, hdefinition.symm⟩
    · exact ⟨kv, hkv, rfl, rfl, rfl⟩
  · rw [InsertionMap.map_entries_set (f := fun r : Registration State => r.id) hlookup hid]
    exact hs.sorted

theorem Inv.register (hs : s.Inv) (definition : ErasedDefinition State) : (s.register definition).1.Inv := by
  rw [Registry.register]
  split
  · exact hs
  · split
    · next hnone =>
      have hentries := InsertionMap.entries_set_of_lookup_none hnone
        { id := s.registrationCount, definition : Registration State }
      refine hs.table (le_succ _) (fun kv hkv => ?_) ?_
      · rw [hentries, mem_append, mem_singleton] at hkv
        rcases hkv with hkv | rfl
        · exact .inl ⟨kv, hkv, rfl, rfl, rfl⟩
        · exact .inr ⟨rfl, lt_succ_self _, rfl⟩
      · rw [hentries, map_append, pairwise_append]
        refine ⟨hs.sorted, pairwise_singleton _ _, fun id hid id' hid' => ?_⟩
        obtain ⟨kv, hkv, rfl⟩ := mem_map.mp hid
        rw [map_singleton, mem_singleton] at hid'
        rw [hid']
        exact hs.known kv hkv
    · next existing hsome =>
      split
      · exact hs
      · exact hs.overwrite hsome rfl rfl

theorem Inv.unregister (hs : s.Inv) (key : String) : (s.unregister key).Inv := by
  rw [Registry.unregister]
  split
  · exact hs
  · next live hsome =>
    split
    · refine hs.table (le_refl _) (fun kv hkv => .inl ?_) ?_
      · exact ⟨kv, (InsertionMap.mem_entries_erase.mp hkv).2, rfl, rfl, rfl⟩
      · exact hs.sorted.sublist (filter_sublist.map _)
    · exact hs.overwrite hsome rfl rfl

/-! ## Cells -/

theorem Inv.setCell (hs : s.Inv) {kv : String × Registration State}
    (hkv : kv ∈ s.registrations.entries) {session : Nat} {cell : UnitCell State}
    (hcell : cell = buildCell kv.2.definition (s.seen session kv.2.id)) :
    (s.setCell kv.2.id session cell).Inv where
  numbered := hs.numbered
  keys := hs.keys
  known := hs.known
  sorted := hs.sorted
  unused id session' hle := by
    have hne : id ≠ kv.2.id := by
      have := hs.known kv hkv
      rintro rfl
      exact absurd this (not_lt.mpr hle)
    simpa [Registry.setCell, hne] using hs.unused id session' hle
  sessions := hs.sessions
  last := hs.last
  cells kv' hkv' session' cell' hcell' := by
    by_cases hid : kv'.2.id = kv.2.id
    · obtain rfl := hs.entry_eq hkv' hkv hid
      by_cases hsession : session' = session
      · subst hsession
        simp only [Registry.setCell, update_self, Option.some.injEq] at hcell'
        rw [← hcell', hcell]
        rfl
      · simp only [Registry.setCell, update_self, update_of_ne hsession] at hcell'
        exact hs.cells kv' hkv' session' cell' hcell'
    · simp only [Registry.setCell, update_of_ne hid] at hcell'
      exact hs.cells kv' hkv' session' cell' hcell'

def Builds (s s' : Registry State) : Prop := s' = { s with cells := s'.cells }

theorem Builds.trans {s'' : Registry State} (h : Builds s s') (h' : Builds s' s'') : Builds s s'' := by
  rw [Builds] at h h' ⊢
  rw [h', h]

theorem Inv.cellFor (hs : s.Inv) {kv : String × Registration State}
    (hkv : kv ∈ s.registrations.entries) {session : Nat} (hpending : s.pending session kv.2.id = false) :
    (s.cellFor kv.2 session).1.Inv ∧ Builds s (s.cellFor kv.2 session).1
      ∧ (s.cellFor kv.2 session).2 = buildCell kv.2.definition (s.log session) := by
  have hseen : s.seen session kv.2.id = s.log session := by simp [seen, hpending]
  rw [Registry.cellFor]
  split
  · next cell hcell =>
    refine ⟨hs, rfl, ?_⟩
    rw [hs.cells kv hkv session cell hcell, hseen]
  · exact ⟨hs.setCell hkv (by rw [hseen]), rfl, rfl⟩

/-! ## Reads -/

def ValueOf (log : List SessionEvent) (kv : String × Registration State) (value : String × Json) : Prop :=
  value.1 = kv.1 ∧ kv.2.definition.schema (kv.2.definition.view (kv.2.definition.reducer.fold log)) = .ok value.2

variable {registrations : List (String × Registration State)}

theorem Inv.snapshotOver (hs : s.Inv) {session : Nat} (hsettled : s.Settled session)
    (hmem : ∀ kv ∈ registrations, kv ∈ s.registrations.entries) :
    (snapshotOver session registrations s).1.Inv
    ∧ Builds s (snapshotOver session registrations s).1
    ∧ ∀ values, (snapshotOver session registrations s).2 = .ok values →
      List.Forall₂ (ValueOf (s.log session)) registrations values := by
  induction registrations generalizing s with
  | nil =>
    refine ⟨hs, rfl, fun values hvalues => ?_⟩
    cases hvalues
    exact .nil
  | cons kv rest ih =>
    obtain ⟨key, registration⟩ := kv
    have hkv := hmem _ mem_cons_self
    obtain ⟨hinv, hbuilds, hcell⟩ := hs.cellFor hkv (hsettled _ hkv)
    simp only [Registry.snapshotOver]
    generalize s.cellFor registration session = read at hinv hbuilds hcell
    obtain ⟨s₁, cell⟩ := read
    dsimp only at hinv hbuilds hcell
    have hsettled₁ : s₁.Settled session := by
      rw [hbuilds]
      exact hsettled
    have hmem₁ : ∀ kv ∈ rest, kv ∈ s₁.registrations.entries := by
      rw [hbuilds]
      exact fun kv hkv => hmem kv (mem_cons_of_mem _ hkv)
    obtain ⟨hinv', hbuilds', hvalues'⟩ := ih hinv hsettled₁ hmem₁
    cases hschema : registration.definition.schema (registration.definition.view cell.state) with
    | error e =>
      refine ⟨hinv, hbuilds, fun values hvalues => ?_⟩
      cases hvalues
    | ok value =>
      refine ⟨hinv', hbuilds.trans hbuilds', fun values hvalues => ?_⟩
      dsimp only at hvalues
      generalize (Registry.snapshotOver session rest s₁).2 = later at hvalues hvalues'
      cases later with
      | error e => cases hvalues
      | ok laterValues =>
        cases hvalues
        have hlater := hvalues' laterValues rfl
        rw [hbuilds] at hlater
        refine .cons ⟨hs.keys _ hkv, ?_⟩ hlater
        rw [hcell] at hschema
        exact hschema

theorem Inv.snapshot (hs : s.Inv) {session : Nat} (hsettled : s.Settled session) : (s.snapshot session).1.Inv :=
  (hs.snapshotOver hsettled fun _ hkv => hkv).1

def RowOf (s : Registry State) (log : List SessionEvent) (key : String) (row : CheckpointRow State) :
    Prop :=
  ∃ kv ∈ s.registrations.entries, kv.1 = key ∧ row =
    { ver := kv.2.definition.stateVersion, seq := log.length - 1
      val := kv.2.definition.reducer.fold log }

theorem Inv.checkpointOver (hs : s.Inv) {session : Nat} (hsettled : s.Settled session)
    (hmem : ∀ kv ∈ registrations, kv ∈ s.registrations.entries) (rows : Checkpoint State) :
    (checkpointOver session registrations s rows).1.Inv
    ∧ ∀ key row, (checkpointOver session registrations s rows).2.lookup key = some row →
      rows.lookup key = some row ∨ s.RowOf (s.log session) key row := by
  induction registrations generalizing s rows with
  | nil => exact ⟨hs, fun key row hrow => .inl hrow⟩
  | cons kv rest ih =>
    obtain ⟨key, registration⟩ := kv
    have hkv := hmem _ mem_cons_self
    obtain ⟨hinv, hbuilds, hcell⟩ := hs.cellFor hkv (hsettled _ hkv)
    simp only [Registry.checkpointOver]
    generalize s.cellFor registration session = read at hinv hbuilds hcell
    obtain ⟨s₁, cell⟩ := read
    dsimp only at hinv hbuilds hcell
    have hsettled₁ : s₁.Settled session := by
      rw [hbuilds]
      exact hsettled
    have hmem₁ : ∀ kv ∈ rest, kv ∈ s₁.registrations.entries := by
      rw [hbuilds]
      exact fun kv hkv => hmem kv (mem_cons_of_mem _ hkv)
    obtain ⟨hinv', hrows⟩ := ih hinv hsettled₁ hmem₁ (rows.set registration.definition.key
      { ver := registration.definition.stateVersion, seq := cell.observedSeq, val := cell.state })
    refine ⟨hinv', fun key' row hrow => ?_⟩
    rcases hrows key' row hrow with hold | hrow
    · rw [InsertionMap.lookup_set, hs.keys _ hkv] at hold
      split at hold
      · next heq =>
        refine .inr ⟨_, hkv, heq.symm, ?_⟩
        rw [← Option.some.inj hold, hcell, buildCell_observedSeq _ (hs.numbered session)]
        rfl
      · exact .inl hold
    · rw [hbuilds] at hrow
      exact .inr hrow

theorem Inv.checkpoint (hs : s.Inv) {session : Nat} (hsettled : s.Settled session) (key : String)
    (row : CheckpointRow State) (h : (s.checkpoint session).2.lookup key = some row) :
    s.RowOf (s.log session) key row := by
  refine ((hs.checkpointOver hsettled (fun _ hkv => hkv) ∅).2 key row h).resolve_left ?_
  simp

/-! ## Dispatches -/

theorem seen_of_pending_eq {session id : Nat} (hlog : s'.log session = s.log session)
    (hpending : s'.pending session id = s.pending session id) :
    s'.seen session id = s.seen session id := by
  rw [seen, seen, hlog, hpending]

variable {p : Progress}

/-- The innermost dispatch makes progress, or ends. -/
theorem Inv.progress (hs : s.Inv) (h : s.dispatches = d :: rest)
    (hpending : ∀ kv ∈ s.registrations.entries, s.cells kv.2.id d.session ≠ none →
      p.pending kv.2.id = d.progress.pending kv.2.id) :
    { s with dispatches := { d with progress := p } :: rest }.Inv where
  numbered := hs.numbered
  keys := hs.keys
  known := hs.known
  sorted := hs.sorted
  unused := hs.unused
  sessions := by
    have hsessions := hs.sessions
    rw [h] at hsessions
    exact hsessions
  last d' hd' := by
    have hlast := hs.last
    rw [h] at hlast
    rcases mem_cons.mp hd' with rfl | hd'
    · exact hlast d mem_cons_self
    · exact hlast d' (mem_cons_of_mem _ hd')
  cells kv hkv session cell hcell := by
    rw [hs.cells kv hkv session cell hcell]
    congr 1
    symm
    apply seen_of_pending_eq
    · rfl
    rw [pending_cons h, pending_cons rfl]
    by_cases hsession : d.session = session
    · subst hsession
      rw [hpending kv hkv (by rw [hcell]; simp)]
    · simp [hsession]

theorem Inv.dispatched (hs : s.Inv) (h : s.dispatches = d :: rest) (hafter : d.progress = .after) :
    { s with dispatches := rest }.Inv where
  numbered := hs.numbered
  keys := hs.keys
  known := hs.known
  sorted := hs.sorted
  unused := hs.unused
  sessions := by
    have hsessions := hs.sessions
    rw [h] at hsessions
    exact (nodup_cons.mp hsessions).2
  last d' hd' := hs.last d' (by rw [h]; exact mem_cons_of_mem _ hd')
  cells kv hkv session cell hcell := by
    rw [hs.cells kv hkv session cell hcell]
    congr 1
    symm
    apply seen_of_pending_eq
    · rfl
    rw [pending_cons h, hafter]
    simp [Progress.pending, pending]

/-! ## Committing an event -/

def commit (s : Registry State) (session : Nat) (event : SessionEvent) : Registry State :=
  { s with log := update s.log session (s.log session ++ [event]) }

theorem commit_log_self (s : Registry State) (session : Nat) (event : SessionEvent) :
    (s.commit session event).log session = s.log session ++ [event] := update_self ..

theorem commit_log_of_ne (s : Registry State) {session session' : Nat} (event : SessionEvent)
    (hne : session' ≠ session) : (s.commit session event).log session' = s.log session' :=
  update_of_ne hne _ _

theorem pending_of_notMem {session : Nat} (h : ∀ d ∈ s.dispatches, d.session ≠ session) (id : Nat) :
    s.pending session id = false := by
  rw [pending, any_eq_false]
  intro d hd heq
  rw [Bool.and_eq_true, decide_eq_true_eq] at heq
  exact h d hd heq.1

theorem Inv.append (hs : s.Inv) {session : Nat} {event : SessionEvent} {reached : Bool}
    (hfree : ∀ d ∈ s.dispatches, d.session ≠ session) (hseq : event.seq = (s.log session).length)
    (hmeets : reached = true ∨ s.NoCells session 0) :
    (if reached then { s.commit session event with dispatches := { session, event } :: s.dispatches }
      else s.commit session event).Inv := by
  have hnumbered : ∀ session', NumberedFrom (·.seq) 0 ((s.commit session event).log session') := by
    intro session'
    by_cases hne : session' = session
    · subst hne
      rw [commit_log_self]
      exact (hs.numbered session').snoc (by simpa using hseq)
    · rw [commit_log_of_ne s event hne]
      exact hs.numbered session'
  have hlast : ∀ d ∈ s.dispatches, ((s.commit session event).log d.session).getLast? = some d.event := by
    intro d hd
    rw [commit_log_of_ne s event (hfree d hd)]
    exact hs.last d hd
  cases reached with
  | true =>
    refine ⟨hnumbered, hs.keys, hs.known, hs.sorted, hs.unused, ?_, ?_, fun kv hkv session' cell hcell => ?_⟩
    · show (session :: s.dispatches.map (·.session)).Nodup
      refine nodup_cons.mpr ⟨fun hmem => ?_, hs.sessions⟩
      obtain ⟨d, hd, hsession⟩ := mem_map.mp hmem
      exact hfree d hd hsession
    · intro d hd
      rcases mem_cons.mp hd with rfl | hd
      · show ((s.commit session event).log session).getLast? = some event
        rw [commit_log_self]
        simp
      · exact hlast d hd
    · rw [hs.cells kv hkv session' cell hcell]
      congr 1
      by_cases hne : session' = session
      · -- the event is the part of the log that is still to be seen
        subst hne
        rw [seen, seen, pending_of_notMem hfree, pending_cons rfl]
        have hlog := commit_log_self s session' event
        simp [Progress.pending, commit] at hlog ⊢
      · symm
        apply seen_of_pending_eq
        · exact commit_log_of_ne s event hne
        rw [pending_cons rfl]
        simp [Ne.symm hne, pending]
  | false =>
    have hnone := hmeets.resolve_left (by simp)
    refine ⟨hnumbered, hs.keys, hs.known, hs.sorted, hs.unused, hs.sessions, hlast,
      fun kv hkv session' cell hcell => ?_⟩
    by_cases hne : session' = session
    · subst hne
      have hcell : s.cells kv.2.id session' = some cell := hcell
      have := hnone kv hkv (zero_le _)
      rw [hcell] at this
      cases this
    · rw [hs.cells kv hkv session' cell hcell]
      congr 1
      exact (seen_of_pending_eq (commit_log_of_ne s event hne) rfl).symm

/-! ## The drive -/

theorem Inv.log_eq (hs : s.Inv) (h : s.dispatches = d :: rest) :
    s.log d.session = (s.log d.session).dropLast ++ [d.event] ∧ d.event.seq = (s.log d.session).dropLast.length := by
  have hlast := hs.last d (by rw [h]; exact mem_cons_self)
  have hlog := dropLast_append_getLast? d.event hlast
  refine ⟨hlog.symm, ?_⟩
  have hseq := hs.numbered d.session (s.log d.session).dropLast.length d.event (by
    rw [← hlog]
    simp)
  simpa using hseq

theorem Inv.driveCell (hs : s.Inv) (h : s.dispatches = d :: rest)
    {kv : String × Registration State} (hkv : kv ∈ s.registrations.entries)
    (hpending : d.progress.pending kv.2.id = true) :
    s.driveCell kv.2 d.session d.event = buildCell kv.2.definition (s.log d.session).dropLast := by
  rw [Registry.driveCell]
  split
  · next cell hcell =>
    rw [hs.cells kv hkv d.session cell hcell, seen, hs.pending_head h, hpending]
    rfl
  · obtain ⟨hlog, hseq⟩ := hs.log_eq h
    rw [hseq, Int.toNat_natCast, dropLast_eq_take, length_take]
    congr 2
    omega

theorem Inv.dropCell (hs : s.Inv) (id session : Nat) :
    { s with cells := update s.cells id (update (s.cells id) session none) }.Inv where
  numbered := hs.numbered
  keys := hs.keys
  known := hs.known
  sorted := hs.sorted
  unused id' session' hle := by
    by_cases hid : id' = id
    · subst hid
      by_cases hsession : session' = session
      · simp [hsession]
      · simpa [hsession] using hs.unused id' session' hle
    · simpa [hid] using hs.unused id' session' hle
  sessions := hs.sessions
  last := hs.last
  cells kv hkv session' cell hcell := by
    by_cases hid : kv.2.id = id
    · by_cases hsession : session' = session
      · simp [hid, hsession] at hcell
      · simp only [hid, update_self, update_of_ne hsession] at hcell
        exact hs.cells kv hkv session' cell (hid ▸ hcell)
    · simp only [update_of_ne hid] at hcell
      exact hs.cells kv hkv session' cell hcell

variable {next : Nat}

theorem Inv.drove (hs : s.Inv) (h : s.dispatches = d :: rest) (hprogress : d.progress = .driving next false)
    {kv : String × Registration State}
    (hfind : s.registrations.entries.find? (fun kv => next ≤ kv.2.id) = some kv)
    {cell : UnitCell State} (hcell : cell = buildCell kv.2.definition (s.log d.session))
    (hp : ∀ id, id ≤ kv.2.id → p.pending id = false)
    (hlater : ∀ kv' ∈ s.registrations.entries, kv.2.id < kv'.2.id →
      s.cells kv'.2.id d.session ≠ none → p.pending kv'.2.id = true) :
    { s.setCell kv.2.id d.session cell with dispatches := { d with progress := p } :: rest }.Inv := by
  obtain ⟨hnext, before, after, hentries, hbefore⟩ := List.find?_eq_some_iff_append.mp hfind
  have hnext : next ≤ kv.2.id := by simpa using hnext
  have hkv : kv ∈ s.registrations.entries := by rw [hentries]; simp
  -- forget the unit's cell, move on, and write the cell that has seen the event
  have hdropped := (hs.dropCell kv.2.id d.session).progress (p := p) h fun kv' hkv' hsome => ?_
  · have hwritten := @Inv.setCell _ _ hdropped kv hkv d.session cell (by
      rw [seen, hdropped.pending_head rfl, hp _ (le_refl _)]
      exact hcell)
    simpa [Registry.setCell, update_idem] using hwritten
  · rw [hprogress]
    rcases lt_trichotomy kv'.2.id kv.2.id with hlt | heq | hgt
    · -- the drive has passed this unit already
      rw [hp _ (le_of_lt hlt)]
      have hsorted := hs.sorted
      rw [hentries, map_append, map_cons, pairwise_append] at hsorted
      rw [hentries, mem_append, mem_cons] at hkv'
      rcases hkv' with hkv' | rfl | hkv'
      · have := hbefore kv' hkv'
        simpa [Progress.pending] using this
      · omega
      · have := (pairwise_cons.mp hsorted.2.1).1 _ (mem_map_of_mem hkv')
        omega
    · rw [heq] at hsome
      simp at hsome
    · have hne : kv'.2.id ≠ kv.2.id := ne_of_gt hgt
      simp only [update_of_ne hne] at hsome
      rw [hlater kv' hkv' hgt hsome]
      simp [Progress.pending]
      omega

theorem Inv.driveNext (hs : s.Inv) (h : s.dispatches = d :: rest) (hprogress : d.progress = .driving next false)
    (hmeets : s.Meets .driveNext) : (s.driveNext d rest next).Inv := by
  rw [Registry.driveNext]
  cases hfind : s.registrations.entries.find? fun kv => next ≤ kv.2.id with
  | none =>
    -- nobody is left who has still to see the event
    rw [List.find?_eq_none] at hfind
    refine hs.progress h fun kv hkv _ => ?_
    have hlt := hfind kv hkv
    rw [hprogress]
    simpa [Progress.pending] using hlt
  | some kv =>
    have hkv := mem_of_find?_eq_some hfind
    have hnext : next ≤ kv.2.id := by simpa using List.find?_some hfind
    obtain ⟨hlog, hseq⟩ := hs.log_eq h
    have hcell := hs.driveCell h hkv (by simpa [hprogress, Progress.pending] using hnext)
    have hwrites : ∀ applied, kv.2.definition.apply (buildCell kv.2.definition
        (s.log d.session).dropLast).state d.event = applied →
        { state := applied.getD (buildCell kv.2.definition (s.log d.session).dropLast).state
          observedSeq := d.event.seq } = buildCell kv.2.definition (s.log d.session) := by
      rintro _ rfl
      conv_rhs => rw [hlog]
      rw [buildCell_snoc]
    have hgoOn : ∀ {cell : UnitCell State} {notifying : Bool}, cell = buildCell kv.2.definition (s.log d.session) →
        { s.setCell kv.2.id d.session cell with
          dispatches := { d with progress := .driving (kv.2.id + 1) notifying } :: rest }.Inv := by
      intro cell notifying hbuilt
      refine hs.drove h hprogress hfind hbuilt (fun id hle => ?_) fun kv' _ hgt _ => ?_
      · simpa [Progress.pending] using lt_succ_of_le hle
      · simpa [Progress.pending] using hgt
    obtain ⟨key, registration⟩ := kv
    dsimp only at *
    rw [hcell]
    cases happly : registration.definition.apply (buildCell registration.definition
        (s.log d.session).dropLast).state d.event with
    | none => exact hgoOn (hwrites _ happly)
    | some state =>
      dsimp only
      split
      · exact hgoOn (hwrites _ happly)
      · next hlisteners =>
        split
        · next e hrefused =>
          -- the drive is broken off, which only units without a cell may miss
          refine hs.drove h hprogress hfind (hwrites _ happly) (fun id _ => rfl) fun kv' hkv' hgt hsome => ?_
          simp only [Meets, h, hprogress, hfind] at hmeets
          rcases hmeets with hzero | haccepts | hnone
          · exact absurd hzero hlisteners
          · rw [Accepts, hs.last d (by rw [h]; exact mem_cons_self), Option.bind_some] at haccepts
            rw [buildCell] at happly
            simp [happly, hrefused, Except.isOk, Except.toBool] at haccepts
          · exact absurd (Option.isNone_iff_eq_none.mp (hnone kv' hkv' hgt)) hsome
        · exact hgoOn (hwrites _ happly)

/-! ## Runs -/

/-- **Every action that meets the condition keeps the invariant.** -/
theorem Inv.step (hs : s.Inv) {act : RegistryAct State} (hmeets : s.Meets act)
    (h : s.step act = some s') : s'.Inv := by
  cases act with
  | register definition =>
    obtain ⟨-, rfl⟩ := (Option.ite_none_right_eq_some.mp h).imp id Option.some.inj
    exact hs.register definition
  | unregister key =>
    obtain ⟨-, rfl⟩ := (Option.ite_none_right_eq_some.mp h).imp id Option.some.inj
    exact hs.unregister key
  | subscribe | unsubscribe =>
    obtain ⟨-, rfl⟩ := (Option.ite_none_right_eq_some.mp h).imp id Option.some.inj
    exact ⟨hs.numbered, hs.keys, hs.known, hs.sorted, hs.unused, hs.sessions, hs.last, hs.cells⟩
  | snapshot session =>
    obtain ⟨-, rfl⟩ := (Option.ite_none_right_eq_some.mp h).imp id Option.some.inj
    exact hs.snapshot hmeets
  | checkpoint session =>
    obtain ⟨-, rfl⟩ := (Option.ite_none_right_eq_some.mp h).imp id Option.some.inj
    exact (hs.checkpointOver hmeets (fun _ hkv => hkv) ∅).1
  | append session event reached =>
    obtain ⟨⟨-, hfree, hseq⟩, rfl⟩ := (Option.ite_none_right_eq_some.mp h).imp id Option.some.inj
    exact hs.append hfree hseq hmeets
  | drive =>
    simp only [Registry.step] at h
    split at h
    · next d rest hd =>
      obtain ⟨hbefore, rfl⟩ := (Option.ite_none_right_eq_some.mp h).imp id Option.some.inj
      refine hs.progress hd fun kv _ _ => ?_
      rw [hbefore]
      simp [Progress.pending]
    · cases h
  | driveNext =>
    simp only [Registry.step] at h
    split at h
    · next d rest hd =>
      split at h
      · next next hprogress =>
        cases h
        exact hs.driveNext hd hprogress hmeets
      · cases h
    · cases h
  | notified =>
    simp only [Registry.step] at h
    split at h
    · next d rest hd =>
      split at h
      · next next hprogress =>
        cases h
        refine hs.progress hd fun kv _ _ => ?_
        rw [hprogress]
        rfl
      · cases h
    · cases h
  | notifyThrows =>
    simp only [Registry.step] at h
    split at h
    · next d rest hd =>
      split at h
      · next next hprogress =>
        cases h
        refine hs.progress hd fun kv hkv hsome => ?_
        rw [hprogress]
        -- a unit the drive had still to come to has no cell
        simp only [Progress.pending, Bool.false_eq, decide_eq_false_iff_not]
        simp only [Meets, hd, hprogress] at hmeets
        exact fun hle => hsome (Option.isNone_iff_eq_none.mp (hmeets kv hkv hle))
      · cases h
    · cases h
  | dispatched =>
    simp only [Registry.step] at h
    split at h
    · next d rest hd =>
      obtain ⟨hafter, rfl⟩ := (Option.ite_none_right_eq_some.mp h).imp id Option.some.inj
      exact hs.dispatched hd hafter
    · cases h

variable {log : Nat → List SessionEvent}

theorem inv_init (hlog : ∀ session, NumberedFrom (·.seq) 0 (log session)) :
    ({ log } : Registry State).Inv where
  numbered := hlog
  keys kv hkv := by simp at hkv
  known kv hkv := by simp at hkv
  sorted := .nil
  unused id session _ := rfl
  sessions := nodup_nil
  last d hd := by simp at hd
  cells kv hkv := by simp at hkv

variable {acts : List (RegistryAct State)}

theorem inv_run (hlog : ∀ session, NumberedFrom (·.seq) 0 (log session))
    (h : Machine.exec step { log } acts = some s) (hmeets : Machine.Along step Meets { log } acts) :
    s.Inv :=
  Machine.exec_invariant_along (fun _ _ _ hs hact hstep => hs.step hact hstep) (inv_init hlog) h hmeets

theorem Inv.cell_cutAt (hs : s.Inv) {kv : String × Registration State}
    (hkv : kv ∈ s.registrations.entries) {session : Nat} {cell : UnitCell State}
    (hcell : s.cells kv.2.id session = some cell) : -1 ≤ cell.observedSeq
      ∧ kv.2.definition.reducer.CutAt (s.log session) (cell.observedSeq + 1).toNat cell.state := by
  have hfront : s.seen session kv.2.id <+: s.log session := by
    rw [seen]
    split
    · exact dropLast_prefix _
    · exact prefix_rfl
  have hseq := buildCell_observedSeq kv.2.definition
    ((hs.numbered session).front hfront)
  rw [hs.cells kv hkv session cell hcell, hseq]
  refine ⟨by omega, CutAt.extend ?_ hfront⟩
  have hlength : ((s.seen session kv.2.id).length - 1 + 1 : Int).toNat = (s.seen session kv.2.id).length := by omega
  rw [hlength]
  exact cutAt_fold _

/-- **Live projections.**  In a run whose actions meet the condition, every cell is the fold of the events up to its
observed seq, and a snapshot is one cut: its values are the views of every unit's fold up to `asOfSeq`, which is the
whole log, and so are a checkpoint's rows. -/
theorem projections_run (hlog : ∀ session, Reducer.NumberedFrom (·.seq) 0 (log session))
    (h : Machine.exec step { log } acts = some s) (hmeets : Machine.Along step Meets { log } acts) :
    (∀ kv ∈ s.registrations.entries, ∀ session cell, s.cells kv.2.id session = some cell → -1 ≤ cell.observedSeq
      ∧ kv.2.definition.reducer.CutAt (s.log session) (cell.observedSeq + 1).toNat cell.state)
    ∧ ∀ session, s.Meets (.snapshot session) → (∀ s' snapshot, s.snapshot session = (s', .ok snapshot) →
        snapshot.asOfSeq = (s.log session).length - 1
        ∧ List.Forall₂ (ValueOf (s.log session)) s.registrations.entries snapshot.values)
      ∧ ∀ key row, (s.checkpoint session).2.lookup key = some row → s.RowOf (s.log session) key row := by
  have hs := inv_run hlog h hmeets
  refine ⟨fun kv hkv session cell hcell => hs.cell_cutAt hkv hcell, fun session hsettled => ⟨?_,
    hs.checkpoint hsettled⟩⟩
  intro s' snapshot hsnapshot
  obtain ⟨-, hbuilds, hvalues⟩ := hs.snapshotOver hsettled fun _ hkv => hkv
  have hlog' : (snapshotOver session s.registrations.entries s).1.log = s.log := by rw [hbuilds]
  rw [Registry.snapshot] at hsnapshot
  obtain ⟨-, hresult⟩ := Prod.mk.inj hsnapshot
  cases hover : (snapshotOver session s.registrations.entries s).2 with
  | error e =>
    rw [hover] at hresult
    cases hresult
  | ok values =>
    rw [hover] at hresult
    cases hresult
    exact ⟨by rw [hlog'], hvalues values hover⟩

end Registry

/-! ## A unit that counts events -/

def eventCounter (key : String) : ErasedDefinition Nat where
  key
  schema := .ok
  init := 0
  apply count _ := some (count + 1)
  view count := .num (.int count)
  stateVersion := 1

def plainEvent (seq : Int) : SessionEvent := { type := "turn/start", seq, time := 0, data := .null }

namespace Registry

/-- A unit registered from a change listener while an event is being driven counts it once, too. -/
theorem projections_run_of_late_unit : ∃ s : Registry Nat, Machine.exec step { log := fun _ => [] }
        [.register (eventCounter "a"), .subscribe, .snapshot 0, .append 0 (plainEvent 0) true, .drive,
          .driveNext, .register (eventCounter "b"), .notified, .driveNext, .notified, .driveNext] = some s
      ∧ (s.cells 1 0).map (fun cell => (cell.state, cell.observedSeq)) = some (1, 0)
      ∧ ∀ s' snapshot, s.snapshot 0 = (s', .ok snapshot) → snapshot.asOfSeq = 0 := by
  obtain ⟨s, hrun, hmeets, hcell, hsettled, hlength⟩ : ∃ s : Registry Nat, Machine.exec step { log := fun _ => [] }
        [.register (eventCounter "a"), .subscribe, .snapshot 0, .append 0 (plainEvent 0) true, .drive,
          .driveNext, .register (eventCounter "b"), .notified, .driveNext, .notified, .driveNext] = some s
      ∧ Machine.Along step Meets ({ log := fun _ => [] } : Registry Nat)
        [.register (eventCounter "a"), .subscribe, .snapshot 0, .append 0 (plainEvent 0) true, .drive,
          .driveNext, .register (eventCounter "b"), .notified, .driveNext, .notified, .driveNext]
      ∧ (s.cells 1 0).map (fun cell => (cell.state, cell.observedSeq)) = some (1, 0)
      ∧ s.Meets (.snapshot 0) ∧ (s.log 0).length = 1 :=
    ⟨_, rfl, by decide, rfl, by decide, rfl⟩
  obtain ⟨-, hread⟩ := projections_run (fun _ i e he => by simp at he) hrun hmeets
  refine ⟨s, hrun, hcell, fun s' snapshot hsnapshot => ?_⟩
  rw [((hread 0 hsettled).1 s' snapshot hsnapshot).1, hlength]
  rfl

/-- A listener before the registry's own reads a snapshot, and the event is applied twice. -/
theorem event_applied_twice : ∃ s : Registry Nat, Machine.exec step { log := fun _ => [] }
        [.register (eventCounter "a"), .append 0 (plainEvent 0) true, .snapshot 0, .drive, .driveNext,
          .driveNext, .dispatched] = some s
      ∧ s.log 0 = [plainEvent 0]
      ∧ (s.cells 0 0).map (fun cell => (cell.state, cell.observedSeq)) = some (2, 0)
      ∧ (eventCounter "a").reducer.fold ((s.log 0).take 1) = 1 := by
  refine ⟨_, rfl, rfl, rfl, rfl⟩

end Registry

end CocoHarness.Projection
