/-
# CocoHarness.Projection.Restore — cold reads from a checkpoint and the log's tail.

A checkpoint row is a unit's state, the seq it was folded up to, and the version of the unit.  A cold read asks for
the events from one below the lowest usable row on, and replays onto each row the events it has not seen.

Rows are sound when each is the state of some unit of its key and version after the first events of the log
(`Sound`).  They are when they come from a registry whose run met the condition of the drive, or from a cold read of
sound rows; the version of a unit is bumped whenever its fold changes (`SameVersions`).
-/
import CocoHarness.Lib.Fallible
import CocoHarness.Projection.RegistryInvariant

namespace CocoHarness.Projection

open Lib SessionLog List Registry Reducer

variable {State : Type}

/-! ## Restoring -/

/-- Where a unit's replay must start: after its row, when that has the unit's version. -/
def rowNeed (definition : ErasedDefinition State) (row : Option (CheckpointRow State)) : Int :=
  match row with
  | some row => if row.ver = definition.stateVersion then max (row.seq + 1) 0 else 0
  | none => 0

/-- The lower of a floor, when there is one, and what a unit needs. -/
def lowerFloor (floor : Option Int) (need : Int) : Int :=
  match floor with
  | none => need
  | some floor => min floor need

def rowUsable (definition : ErasedDefinition State) (row : CheckpointRow State) (baseSeq endSeq : Int) : Bool :=
  row.ver = definition.stateVersion && baseSeq - 1 ≤ row.seq && row.seq ≤ endSeq

def cannotRestore (key : String) (baseSeq : Int) : JsError :=
  .error (s!"session projection {stringify key} cannot restore from seq {baseSeq}: "
    ++ "its checkpoint row is missing, version-mismatched, or beyond the supplied log end; "
    ++ "re-read from seq 0")

def replay (definition : ErasedDefinition State) (covered : Int) (events : List SessionEvent)
    (state : State) : State :=
  events.foldl (fun state event => if covered < event.seq then definition.reducer.step state event else state) state

namespace Registry

/-- The stored seq a restore over the checkpoint must start at; none when no unit is registered. -/
def restoreFloor (s : Registry State) (checkpoint : Checkpoint State) : Option Int :=
  (s.registrations.entries.foldl (fun floor kv =>
    some (lowerFloor floor (rowNeed kv.2.definition (checkpoint.lookup kv.2.definition.key))))
      none).map fun floor => max (floor - 1) 0

/-- The values and refreshed rows of the registrations one after the other. -/
def restoreOver (checkpoint : Checkpoint State) (events : List SessionEvent) (baseSeq endSeq : Int) :
    List (String × Registration State) → Checkpoint State → Except JsError (List (String × Json) × Checkpoint State)
  | [], refreshed => .ok ([], refreshed)
  | (_, registration) :: rest, refreshed =>
    let definition := registration.definition
    let row := (checkpoint.lookup definition.key).filter fun row => rowUsable definition row baseSeq endSeq
    if row.isNone ∧ 0 < baseSeq then .error (cannotRestore definition.key baseSeq)
    else
      let state := match row with
        | some row => replay definition row.seq events row.val
        | none => replay definition (baseSeq - 1) events definition.init
      match definition.schema (definition.view state) with
      | .error e => .error e
      | .ok value =>
        (restoreOver checkpoint events baseSeq endSeq rest (refreshed.set definition.key
          { ver := definition.stateVersion, seq := endSeq, val := state })).map
          fun (values, refreshed) => ((definition.key, value) :: values, refreshed)

/-- Cold read: fold every unit over a stored suffix, from its checkpoint row when usable. -/
def restore (s : Registry State) (checkpoint : Checkpoint State) (events : List SessionEvent)
    (baseSeq : Int) : Except JsError (Snapshot × Checkpoint State) :=
  let endSeq := (events.getLast?.map (·.seq)).getD (baseSeq - 1)
  (restoreOver checkpoint events baseSeq endSeq s.registrations.entries ∅).map
    fun (values, refreshed) => ({ asOfSeq := endSeq, values }, refreshed)

end Registry

/-! ## The persisted cache -/

structure CheckpointIdentity where
  createdAt : Int
  cwd : Option String
  deriving DecidableEq

structure CheckpointRecord (State : Type) where
  identity : CheckpointIdentity
  rows : Checkpoint State

structure StoredLog where
  identity : CheckpointIdentity
  events : List SessionEvent

def StoredLog.readFrom (log : StoredLog) (seq : Int) : List SessionEvent :=
  log.events.filter fun event => seq ≤ event.seq

def cachedRows {State : Type} (record : Option (CheckpointRecord State)) : Checkpoint State :=
  match record with
  | some record => record.rows
  | none => ∅

/-- Cold-read one session, and the record to write back. The log is read from the floor, and once more as a whole when
that cannot be restored from. -/
def coldSnapshot (s : Registry State) (record : Option (CheckpointRecord State))
    (log log' : StoredLog) : Except JsError (Snapshot × Option (CheckpointRecord State)) :=
  match s.restoreFloor (cachedRows record) with
  | none => .ok ({ asOfSeq := ((log.readFrom 0).getLast?.map (·.seq)).getD (-1), values := [] }, none)
  | some floor =>
    let related := record.all fun record => record.identity = log.identity
    let whole : Except JsError (Snapshot × Checkpoint State) := s.restore ∅ (log'.readFrom 0) 0
    let restored :=
      if ¬ related then whole
      else
        match s.restore (cachedRows record) (log.readFrom floor) floor with
        | .error _ => whole
        | .ok restored => .ok restored
    restored.map fun (snapshot, checkpoint) => (snapshot, some { identity := log.identity, rows := checkpoint })

/-! ## Sound rows -/

def SameVersions (units : Set (ErasedDefinition State)) : Prop :=
  ∀ d ∈ units, ∀ d' ∈ units, d.key = d'.key → d.stateVersion = d'.stateVersion → d.reducer = d'.reducer

/-- Every row is the state of a unit of its key and version after the first events of the log. -/
def Sound (units : Set (ErasedDefinition State)) (log : List SessionEvent) (rows : Checkpoint State) : Prop :=
  ∀ key row, rows.lookup key = some row → ∃ d ∈ units, d.key = key ∧ d.stateVersion = row.ver
    ∧ ∃ n : Nat, row.seq = (n : Int) - 1 ∧ d.reducer.CutAt log n row.val

/-- The units registered in a registry, under their keys, are among the given ones. -/
structure Registers (s : Registry State) (units : Set (ErasedDefinition State)) : Prop where
  keys : ∀ kv ∈ s.registrations.entries, kv.2.definition.key = kv.1
  units : ∀ kv ∈ s.registrations.entries, kv.2.definition ∈ units

/-- Every value is the view of its unit's fold of the whole log, and every row that fold. -/
structure CutOf (s : Registry State) (log : List SessionEvent) (snapshot : Snapshot)
    (rows : Checkpoint State) : Prop where
  asOfSeq : snapshot.asOfSeq = (log.length : Int) - 1
  values : List.Forall₂ (Registry.ValueOf log) s.registrations.entries snapshot.values
  rows : ∀ key row, rows.lookup key = some row → s.RowOf log key row

variable {units : Set (ErasedDefinition State)} {s : Registry State} {log log' : List SessionEvent}
  {rows : Checkpoint State} {snapshot : Snapshot}

theorem CutOf.sound (h : Registers s units) (hcut : CutOf s log snapshot rows) : Sound units log rows := by
  intro key row hrow
  obtain ⟨kv, hkv, rfl, rfl⟩ := hcut.rows key row hrow
  exact ⟨_, h.units kv hkv, h.keys kv hkv, rfl, log.length, rfl, cutAt_fold log⟩

/-! ## Replaying -/

variable {definition : ErasedDefinition State}

theorem replay_row {n b : Nat} {state : State} (hcut : definition.reducer.CutAt log n state)
    (hnumbered : NumberedFrom (·.seq) 0 log) (hbase : b ≤ n) :
    replay definition ((n : Int) - 1) (log.drop b) state = definition.reducer.fold log := by
  have hdrop := hnumbered.drop b
  rw [replay, foldl_skip definition.reducer.step (n - b) (by omega) hdrop, drop_drop,
    Nat.add_sub_cancel' hbase]
  exact hcut.resume

theorem filter_seq_eq_drop {start : Int} (h : NumberedFrom (·.seq) start log) (n : Nat) :
    log.filter (fun event => start + n ≤ event.seq) = log.drop n := by
  induction n generalizing start log with
  | zero =>
    refine filter_eq_self.mpr fun event hmem => ?_
    obtain ⟨i, hi⟩ := mem_iff_getElem?.mp hmem
    have hseq : event.seq = start + i := h i event hi
    simp [hseq]
  | succ n ih =>
    cases log with
    | nil => rfl
    | cons event log =>
      have hseq : event.seq = start := by simpa using h 0 event rfl
      have hrest := ih h.tail
      rw [filter_cons_of_neg (by simp; omega), drop_succ_cons, ← hrest]
      congr 1
      funext e
      congr 1
      push_cast
      simp [Int.add_assoc, Int.add_comm 1]

/-! ## The floor -/

variable {registrations : List (String × Registration State)}

theorem lowerFloor_foldl (need : String × Registration State → Int) {floor : Option Int} {m : Int}
    (h : registrations.foldl (fun floor kv => some (lowerFloor floor (need kv))) floor = some m) :
    (∀ f, floor = some f → m ≤ f) ∧ ∀ kv ∈ registrations, m ≤ need kv := by
  induction registrations generalizing floor with
  | nil =>
    rw [foldl_nil] at h
    subst h
    exact ⟨fun f hf => (Option.some.inj hf).le, fun kv hkv => by simp at hkv⟩
  | cons kv registrations ih =>
    obtain ⟨hfloor, hrest⟩ := ih h
    have hlower := hfloor _ rfl
    refine ⟨fun f hf => ?_, fun kv' hkv' => ?_⟩
    · subst hf
      exact hlower.trans (min_le_left _ _)
    · rcases mem_cons.mp hkv' with rfl | hkv'
      · cases floor with
        | none => exact hlower
        | some f => exact hlower.trans (min_le_right _ _)
      · exact hrest kv' hkv'

theorem restoreFloor_row {floor : Int} (h : s.restoreFloor rows = some floor) :
    0 ≤ floor ∧ (0 < floor → ∀ kv ∈ s.registrations.entries, ∃ row,
      rows.lookup kv.2.definition.key = some row ∧ row.ver = kv.2.definition.stateVersion ∧ floor ≤ row.seq) := by
  obtain ⟨m, hm, rfl⟩ := Option.map_eq_some_iff.mp h
  refine ⟨le_max_right _ _, fun hpos kv hkv => ?_⟩
  have hneed := (lowerFloor_foldl (fun kv => rowNeed kv.2.definition (rows.lookup kv.2.definition.key)) hm).2 kv hkv
  have hm1 : max (m - 1) 0 = m - 1 := max_eq_left (by omega)
  rw [hm1] at hpos ⊢
  unfold rowNeed at hneed
  split at hneed
  · next row hrow =>
    split at hneed
    · next hver => exact ⟨row, hrow, hver, by omega⟩
    · omega
  · omega

/-! ## Cold reads of sound rows -/

theorem endSeq_drop (hnumbered : NumberedFrom (·.seq) 0 log) (base : Nat) :
    ((log.drop base).getLast?.map (·.seq)).getD ((base : Int) - 1)
      = max ((log.length : Int) - 1) ((base : Int) - 1) := by
  have := (hnumbered.drop base).getLast
  rw [zero_add] at this
  rw [this, length_drop]
  omega

variable {base : Nat} {endSeq : Int}

theorem restored_state
    (hversions : SameVersions units) (hdefinition : definition ∈ units) (hsound : Sound units log rows)
    (hcomparable : log <+: log' ∨ log' <+: log) (hnumbered : NumberedFrom (·.seq) 0 log')
    {row : CheckpointRow State} (hrow : rows.lookup definition.key = some row)
    (husable : rowUsable definition row base endSeq = true) (hend : endSeq ≤ (log'.length : Int) - 1) :
    replay definition row.seq (log'.drop base) row.val = definition.reducer.fold log' := by
  obtain ⟨d, hd, hkey, hver, n, hseq, hcut⟩ := hsound _ row hrow
  simp only [rowUsable, Bool.and_eq_true, decide_eq_true_eq] at husable
  obtain ⟨⟨hversion, hbase⟩, hle⟩ := husable
  rw [hversions d hd definition hdefinition hkey (hver.trans hversion)] at hcut
  rw [hseq] at hbase hle ⊢
  exact replay_row (hcut.transfer hcomparable (by omega)) hnumbered (by omega)

variable {refreshed refreshed' : Checkpoint State} {values : List (String × Json)}

theorem restoreOver_cons_ok {events : List SessionEvent} {baseSeq : Int} {key : String}
    {registration : Registration State} {rest : List (String × Registration State)}
    (h : restoreOver rows events baseSeq endSeq ((key, registration) :: rest) refreshed
      = .ok (values, refreshed')) :
    ∃ state value later, values = (registration.definition.key, value) :: later
      ∧ ((∃ row, rows.lookup registration.definition.key = some row
            ∧ rowUsable registration.definition row baseSeq endSeq = true
            ∧ state = replay registration.definition row.seq events row.val)
        ∨ baseSeq ≤ 0 ∧ state = replay registration.definition (baseSeq - 1) events registration.definition.init)
      ∧ registration.definition.schema (registration.definition.view state) = .ok value
      ∧ restoreOver rows events baseSeq endSeq rest (refreshed.set registration.definition.key
          { ver := registration.definition.stateVersion, seq := endSeq, val := state })
        = .ok (later, refreshed') := by
  simp only [restoreOver] at h
  split at h
  · cases h
  · next hunusable =>
    split at h
    · cases h
    · next value hvalue =>
      cases hlater : restoreOver rows events baseSeq endSeq rest
          (refreshed.set registration.definition.key
            { ver := registration.definition.stateVersion, seq := endSeq, val :=
              match (rows.lookup registration.definition.key).filter fun row =>
                rowUsable registration.definition row baseSeq endSeq with
              | some row => replay registration.definition row.seq events row.val
              | none => replay registration.definition (baseSeq - 1) events registration.definition.init }) with
      | error e =>
        rw [hlater] at h
        cases h
      | ok later =>
        obtain ⟨later, last⟩ := later
        rw [hlater] at h
        cases Except.ok.inj h
        refine ⟨_, value, later, rfl, ?_, hvalue, hlater⟩
        cases hrow : (rows.lookup registration.definition.key).filter fun row =>
            rowUsable registration.definition row baseSeq endSeq with
        | none =>
          rw [hrow] at hunusable
          exact .inr ⟨by simpa using hunusable, rfl⟩
        | some row =>
          obtain ⟨hlookup, husable⟩ := Option.filter_eq_some_iff.mp hrow
          exact .inl ⟨row, hlookup, husable, rfl⟩

/-- **The loop.**  What it returns is the end of the log, for every unit. -/
theorem restoreOver_ok (hversions : SameVersions units) (hsound : Sound units log rows)
    (hcomparable : log <+: log' ∨ log' <+: log) (hnumbered : NumberedFrom (·.seq) 0 log')
    (hs : Registers s units) (hmem : ∀ kv ∈ registrations, kv ∈ s.registrations.entries)
    (h : restoreOver rows (log'.drop base) base ((log'.length : Int) - 1) registrations refreshed
      = .ok (values, refreshed')) :
    List.Forall₂ (ValueOf log') registrations values ∧ ∀ key row, refreshed'.lookup key = some row →
        refreshed.lookup key = some row ∨ s.RowOf log' key row := by
  induction registrations generalizing refreshed values with
  | nil =>
    cases Except.ok.inj h
    exact ⟨.nil, fun key row hrow => .inl hrow⟩
  | cons kv rest ih =>
    obtain ⟨key, registration⟩ := kv
    have hkv := hmem _ mem_cons_self
    obtain ⟨state, value, later, rfl, hstate, hvalue, hlater⟩ := restoreOver_cons_ok h
    have hfold : state = registration.definition.reducer.fold log' := by
      rcases hstate with ⟨row, hlookup, husable, rfl⟩ | ⟨hbase, rfl⟩
      · exact restored_state hversions (hs.units _ hkv) hsound hcomparable hnumbered hlookup husable
          (le_refl _)
      · -- the whole log is replayed onto the initial state
        obtain rfl : base = 0 := by omega
        exact replay_row (n := 0) ⟨Nat.zero_le _, rfl⟩ hnumbered (Nat.zero_le _)
    subst hfold
    obtain ⟨hvalues, hrows⟩ := ih (fun kv hkv => hmem kv (mem_cons_of_mem _ hkv)) hlater
    refine ⟨.cons ⟨hs.keys _ hkv, hvalue⟩ hvalues, fun key' row hrow => ?_⟩
    rcases hrows key' row hrow with hold | hnew
    · rw [InsertionMap.lookup_set] at hold
      split at hold
      · next hkey =>
        refine .inr ⟨_, hkv, ?_, (Option.some.inj hold).symm⟩
        rw [hkey, hs.keys _ hkv]
      · exact .inl hold
    · exact .inr hnew

variable {rows' : Checkpoint State}

/-- A restore that returns is the end of the log when the tail ends where the log does. -/
theorem restore_of_endSeq (hversions : SameVersions units) (hsound : Sound units log rows)
    (hcomparable : log <+: log' ∨ log' <+: log) (hnumbered : NumberedFrom (·.seq) 0 log')
    (hs : Registers s units) (h : s.restore rows (log'.drop base) base = .ok (snapshot, rows'))
    (hend : ∀ result, restoreOver rows (log'.drop base) base
        (max ((log'.length : Int) - 1) ((base : Int) - 1)) s.registrations.entries ∅ = .ok result →
      max ((log'.length : Int) - 1) ((base : Int) - 1) = (log'.length : Int) - 1) :
    CutOf s log' snapshot rows' := by
  rw [restore, endSeq_drop hnumbered] at h
  dsimp only at h
  generalize max ((log'.length : Int) - 1) ((base : Int) - 1) = endSeq at h hend
  cases hover : restoreOver rows (log'.drop base) base endSeq s.registrations.entries ∅ with
  | error e =>
    rw [hover] at h
    cases h
  | ok result =>
    obtain rfl := hend result hover
    obtain ⟨values, last⟩ := result
    rw [hover] at h
    cases Except.ok.inj h
    obtain ⟨hvalues, hrows⟩ := restoreOver_ok hversions hsound hcomparable hnumbered hs
      (fun _ hkv => hkv) hover
    exact ⟨rfl, hvalues, fun key row hrow => (hrows key row hrow).resolve_left (by simp)⟩

/-- **A cold read that returns** is the end of the log, however the log and the rows' log extend each other. -/
theorem restore_ok (hversions : SameVersions units) (hsound : Sound units log rows)
    (hcomparable : log <+: log' ∨ log' <+: log) (hnumbered : NumberedFrom (·.seq) 0 log')
    (hs : Registers s units) (hfloor : s.restoreFloor rows = some (base : Int))
    (h : s.restore rows (log'.drop base) base = .ok (snapshot, rows')) :
    CutOf s log' snapshot rows' := by
  refine restore_of_endSeq hversions hsound hcomparable hnumbered hs h fun result hover => ?_
  obtain ⟨-, hrow⟩ := restoreFloor_row hfloor
  cases hentries : s.registrations.entries with
  | nil => simp [restoreFloor, hentries] at hfloor
  | cons kv rest =>
    -- a usable row is not below the floor, so the tail is not empty
    rw [hentries] at hover hrow
    obtain ⟨key, registration⟩ := kv
    obtain ⟨state, value, later, -, hstate, -⟩ := restoreOver_cons_ok hover
    rcases hstate with ⟨row, hlookup, husable, -⟩ | ⟨hzero, -⟩
    · by_cases hpos : 0 < (base : Int)
      · obtain ⟨row', hlookup', -, hle⟩ := hrow hpos _ mem_cons_self
        cases hlookup.symm.trans hlookup'
        simp only [rowUsable, Bool.and_eq_true, decide_eq_true_eq] at husable
        omega
      · omega
    · omega

theorem sound_empty : Sound units log (∅ : Checkpoint State) := by
  intro key row hrow
  simp at hrow

/-- **The full re-read.**  It returns the end of the log. -/
theorem restore_whole_ok (hversions : SameVersions units)
    (hnumbered : NumberedFrom (·.seq) 0 log') (hs : Registers s units)
    (h : s.restore ∅ log' 0 = .ok (snapshot, rows')) : CutOf s log' snapshot rows' := by
  have h : s.restore ∅ (log'.drop 0) (0 : Nat) = .ok (snapshot, rows') := by simpa using h
  refine restore_of_endSeq hversions (sound_empty : Sound units log' ∅) (.inl prefix_rfl)
    hnumbered hs h fun _ _ => ?_
  omega

variable {e : JsError}

theorem restoreOver_whole_error (hnumbered : NumberedFrom (·.seq) 0 log') (h : restoreOver ∅ log' 0 endSeq registrations refreshed = .error e) :
    ∃ kv ∈ registrations,
      kv.2.definition.schema (kv.2.definition.view (kv.2.definition.reducer.fold log')) = .error e := by
  induction registrations generalizing refreshed with
  | nil => cases h
  | cons kv rest ih =>
    obtain ⟨key, registration⟩ := kv
    have hfold : replay registration.definition (0 - 1) log' registration.definition.init
        = registration.definition.reducer.fold log' :=
      replay_row (n := 0) (b := 0) ⟨Nat.zero_le _, rfl⟩ hnumbered (Nat.zero_le _)
    simp only [restoreOver, InsertionMap.lookup_empty, Option.filter_none, Option.isNone_none,
      lt_irrefl, and_false, if_false, hfold] at h
    split at h
    · next e' hrefused =>
      cases h
      exact ⟨_, mem_cons_self, hrefused⟩
    · cases hlater : restoreOver ∅ log' 0 endSeq rest (refreshed.set registration.definition.key
          { ver := registration.definition.stateVersion, seq := endSeq
            val := registration.definition.reducer.fold log' }) with
      | ok result =>
        rw [hlater] at h
        cases h
      | error e' =>
        rw [hlater] at h
        cases h
        obtain ⟨kv, hkv, hrefused⟩ := ih hlater
        exact ⟨kv, mem_cons_of_mem _ hkv, hrefused⟩

theorem restore_whole_error (hnumbered : NumberedFrom (·.seq) 0 log')
    (h : s.restore ∅ log' 0 = .error e) : ∃ kv ∈ s.registrations.entries,
      kv.2.definition.schema (kv.2.definition.view (kv.2.definition.reducer.fold log')) = .error e := by
  rw [restore] at h
  dsimp only at h
  cases hover : restoreOver ∅ log' 0 ((log'.getLast?.map (·.seq)).getD (0 - 1))
      s.registrations.entries ∅ with
  | ok result =>
    rw [hover] at h
    cases h
  | error e' =>
    rw [hover] at h
    cases h
    exact restoreOver_whole_error hnumbered hover

/-! ## Where rows come from -/

/-- The checkpoints there can be: of a run that meets the condition, and what cold reads leave. -/
inductive Produced (units : Set (ErasedDefinition State)) : List SessionEvent → Checkpoint State → Prop
  | none {log : List SessionEvent} : Produced units log ∅
  | live {init : Nat → List SessionEvent} {acts : List (RegistryAct State)} {s : Registry State}
      {session : Nat} (hinit : ∀ session, Reducer.NumberedFrom (·.seq) 0 (init session))
      (hrun : Machine.exec Registry.step { log := init } acts = some s)
      (hmeets : Machine.Along Registry.step Registry.Meets { log := init } acts)
      (hread : s.Meets (.checkpoint session))
      (hunits : ∀ kv ∈ s.registrations.entries, kv.2.definition ∈ units) :
      Produced units (s.log session) (s.checkpoint session).2
  | restored {log log' : List SessionEvent} {rows rows' : Checkpoint State} {s : Registry State}
      {base : Nat} {snapshot : Snapshot} (hrows : Produced units log rows)
      (hcomparable : log <+: log' ∨ log' <+: log) (hnumbered : Reducer.NumberedFrom (·.seq) 0 log')
      (hs : Registers s units) (hfloor : s.restoreFloor rows = some (base : Int))
      (hrestore : s.restore rows (log'.drop base) base = .ok (snapshot, rows')) :
      Produced units log' rows'

/-- **Every checkpoint there can be is sound.** -/
theorem Produced.sound (hversions : SameVersions units) (h : Produced units log rows) : Sound units log rows := by
  induction h with
  | none => exact sound_empty
  | live hinit hrun hmeets hread hunits =>
    intro key row hrow
    have hs := inv_run hinit hrun hmeets
    obtain ⟨kv, hkv, rfl, rfl⟩ := hs.checkpoint hread key row hrow
    exact ⟨_, hunits kv hkv, hs.keys kv hkv, rfl, _, rfl, cutAt_fold _⟩
  | restored _ hcomparable hnumbered hs hfloor hrestore ih =>
    exact (restore_ok hversions ih hcomparable hnumbered hs hfloor hrestore).sound hs

/-! ## The cold-read ladder -/

variable {stored : StoredLog}

theorem readFrom_eq_drop (h : NumberedFrom (·.seq) 0 stored.events)
    (n : Nat) : stored.readFrom n = stored.events.drop n := by
  have := filter_seq_eq_drop h n
  rw [zero_add] at this
  exact this

theorem restoreFloor_none (h : s.restoreFloor rows = none) : s.registrations.entries = [] := by
  rw [restoreFloor, Option.map_eq_none_iff] at h
  have hsome : ∀ (registrations : List (String × Registration State)) (floor : Option Int),
      registrations.foldl (fun floor kv => some (lowerFloor floor
        (rowNeed kv.2.definition (rows.lookup kv.2.definition.key)))) floor = none →
      floor = none ∧ registrations = [] := by
    intro registrations
    induction registrations with
    | nil => exact fun floor h => ⟨h, rfl⟩
    | cons kv registrations ih =>
      intro floor h
      cases (ih _ h).1
  exact (hsome _ _ h).2

variable {stored' : StoredLog}

/-- A cold read is the end of the log it read: of the tail's log, or of the one read again as a whole. -/
theorem coldSnapshot_cut (hversions : SameVersions units) (hs : Registers s units)
    {record : Option (CheckpointRecord State)}
    (hnumbered : NumberedFrom (·.seq) 0 stored.events)
    (hnumbered' : NumberedFrom (·.seq) 0 stored'.events)
    (hrecord : ∀ r, record = some r → r.identity = stored.identity →
      ∃ log, Sound units log r.rows ∧ (log <+: stored.events ∨ stored.events <+: log))
    {written : Option (CheckpointRecord State)}
    (h : coldSnapshot s record stored stored' = .ok (snapshot, written)) :
    ∃ rows, CutOf s stored.events snapshot rows ∨ CutOf s stored'.events snapshot rows := by
  have hwhole := readFrom_eq_drop hnumbered' 0
  rw [Nat.cast_zero, drop_zero] at hwhole
  have hcached : record.all (fun r => r.identity = stored.identity) = true →
      ∃ log, Sound units log (cachedRows record) ∧ (log <+: stored.events ∨ stored.events <+: log) := by
    intro hrelated
    cases record with
    | none => exact ⟨stored.events, sound_empty, .inl prefix_rfl⟩
    | some r => exact hrecord r rfl (by simpa using hrelated)
  unfold coldSnapshot at h
  cases hfloor : s.restoreFloor (cachedRows record) with
  | none =>
    rw [hfloor] at h
    cases Except.ok.inj h
    have hnil := restoreFloor_none hfloor
    refine ⟨∅, .inl ⟨?_, by rw [hnil]; exact .nil, fun key row hrow => by simp at hrow⟩⟩
    have hall := readFrom_eq_drop hnumbered 0
    rw [Nat.cast_zero, drop_zero] at hall
    have hlast := hnumbered.getLast
    rw [hall]
    simpa using hlast
  | some floor =>
    obtain ⟨base, rfl⟩ := Int.eq_ofNat_of_zero_le (restoreFloor_row hfloor).1
    rw [hfloor] at h
    simp only [readFrom_eq_drop hnumbered, hwhole] at h
    obtain ⟨⟨snapshot', rows'⟩, hrestored, hresult⟩ := except_map_ok h
    cases hresult
    split at hrestored
    · exact ⟨rows', .inr (restore_whole_ok hversions hnumbered' hs hrestored)⟩
    · next hrelated =>
      split at hrestored
      · exact ⟨rows', .inr (restore_whole_ok hversions hnumbered' hs hrestored)⟩
      · next restored hrestore =>
        cases hrestored
        obtain ⟨log, hsound, hcomparable⟩ := hcached (not_not.mp hrelated)
        exact ⟨rows', .inl (restore_ok hversions hsound hcomparable hnumbered hs hfloor hrestore)⟩

/-- **Cold reads.**  From any checkpoint there can be, over a log that the stored log extends or is cut short of:
restoring throws, or is the end of the stored log for every unit; the full re-read is, or throws what a schema throws;
and so a cold read is the end of the log it read. -/
theorem cold_reads_run (hversions : SameVersions units) (hrows : Produced units log rows) (hs : Registers s units)
    (hnumbered : Reducer.NumberedFrom (·.seq) 0 stored.events)
    (hnumbered' : Reducer.NumberedFrom (·.seq) 0 stored'.events)
    (hcomparable : log <+: stored.events ∨ stored.events <+: log) :
    (∀ floor, s.restoreFloor rows = some floor → ∀ snapshot rows',
      s.restore rows (stored.readFrom floor) floor = .ok (snapshot, rows') → CutOf s stored.events snapshot rows')
    ∧ (∀ snapshot rows', s.restore ∅ (stored.readFrom 0) 0 = .ok (snapshot, rows') →
      CutOf s stored.events snapshot rows')
    ∧ (∀ e, s.restore ∅ (stored.readFrom 0) 0 = .error e → ∃ kv ∈ s.registrations.entries,
      kv.2.definition.schema (kv.2.definition.view (kv.2.definition.reducer.fold stored.events)) = .error e)
    ∧ ∀ record snapshot written, (∀ r, record = some r → r.identity = stored.identity → r.rows = rows) →
      coldSnapshot s record stored stored' = .ok (snapshot, written) →
        ∃ rows', CutOf s stored.events snapshot rows' ∨ CutOf s stored'.events snapshot rows' := by
  have hsound := hrows.sound hversions
  have hwhole := readFrom_eq_drop hnumbered 0
  rw [Nat.cast_zero, List.drop_zero] at hwhole
  rw [hwhole]
  refine ⟨fun floor hfloor snapshot rows' h => ?_, fun snapshot rows' h => ?_, fun e h => ?_, ?_⟩
  · obtain ⟨base, rfl⟩ := Int.eq_ofNat_of_zero_le (restoreFloor_row hfloor).1
    rw [readFrom_eq_drop hnumbered] at h
    exact restore_ok hversions hsound hcomparable hnumbered hs hfloor h
  · exact restore_whole_ok hversions hnumbered hs h
  · exact restore_whole_error hnumbered h
  · intro record snapshot written hrecord h
    refine coldSnapshot_cut hversions hs hnumbered hnumbered' (fun r hr hidentity => ?_) h
    rw [hrecord r hr hidentity]
    exact ⟨log, hsound, hcomparable⟩

/-- A counter that has counted two events is restored over a log of three. -/
theorem cold_reads_run_of_two : ∃ s : Registry Nat, Machine.exec Registry.step { log := fun _ => [] }
        [.register (eventCounter "a"), .append 0 (plainEvent 0) true, .drive, .driveNext, .driveNext,
          .dispatched, .append 0 (plainEvent 1) true, .drive, .driveNext, .driveNext, .dispatched] = some s
      ∧ s.restoreFloor (s.checkpoint 0).2 = some 1
      ∧ ∃ snapshot rows', s.restore (s.checkpoint 0).2 [plainEvent 1, plainEvent 2] 1 = .ok (snapshot, rows')
        ∧ snapshot.asOfSeq = 2 := by
  obtain ⟨s, hrun, hmeets, hread, hunits, hfloor, ⟨snapshot, rows'⟩, hrestore, hlog⟩ :
      ∃ s : Registry Nat, Machine.exec Registry.step { log := fun _ => [] }
          [.register (eventCounter "a"), .append 0 (plainEvent 0) true, .drive, .driveNext, .driveNext,
            .dispatched, .append 0 (plainEvent 1) true, .drive, .driveNext, .driveNext, .dispatched] = some s
        ∧ Machine.Along Registry.step Registry.Meets ({ log := fun _ => [] } : Registry Nat)
          [.register (eventCounter "a"), .append 0 (plainEvent 0) true, .drive, .driveNext, .driveNext,
            .dispatched, .append 0 (plainEvent 1) true, .drive, .driveNext, .driveNext, .dispatched]
        ∧ s.Meets (.checkpoint 0)
        ∧ s.registrations.entries = [("a", { id := 0, definition := eventCounter "a" })]
        ∧ s.restoreFloor (s.checkpoint 0).2 = some 1
        ∧ ∃ result, s.restore (s.checkpoint 0).2 [plainEvent 1, plainEvent 2] 1 = .ok result
        ∧ s.log 0 = [plainEvent 0, plainEvent 1] :=
    ⟨_, rfl, by decide, by decide, rfl, rfl, _, rfl, rfl⟩
  have hregisters : Registers s {eventCounter "a"} := by
    constructor <;> intro kv hkv <;> rw [hunits, List.mem_singleton] at hkv <;> subst hkv
    · rfl
    · exact Set.mem_singleton _
  have hproduced : Produced {eventCounter "a"} (s.log 0) (s.checkpoint 0).2 :=
    .live (fun _ i e he => by simp at he) hrun hmeets hread hregisters.units
  have hversions : SameVersions {eventCounter "a"} := by
    rintro d rfl d' rfl - -
    rfl
  have hnumbered : Reducer.NumberedFrom (·.seq) 0
      (StoredLog.events ⟨⟨0, none⟩, [plainEvent 0, plainEvent 1, plainEvent 2]⟩) := by
    intro i e he
    match i, he with
    | 0, rfl | 1, rfl | 2, rfl => rfl
    | i + 3, he => simp at he
  obtain ⟨hrestored, -⟩ := cold_reads_run hversions hproduced hregisters hnumbered hnumbered
    (.inl (by rw [hlog]; exact ⟨[plainEvent 2], rfl⟩))
  exact ⟨s, hrun, hfloor, snapshot, rows', hrestore, (hrestored 1 hfloor snapshot rows' hrestore).asOfSeq⟩

/-- The checkpoint of a run in which an event is applied twice is restored as it is. -/
theorem restores_twice_applied : ∃ s : Registry Nat, Machine.exec Registry.step { log := fun _ => [] }
        [.register (eventCounter "a"), .append 0 (plainEvent 0) true, .snapshot 0, .drive, .driveNext,
          .driveNext, .dispatched] = some s
      ∧ s.restoreFloor (s.checkpoint 0).2 = some 0
      ∧ (s.restore (s.checkpoint 0).2 (s.log 0) 0).toOption.map (·.1.values) = some [("a", .num (.int 2))]
      ∧ (eventCounter "a").reducer.fold (s.log 0) = 1 :=
  ⟨_, rfl, rfl, rfl, rfl⟩

end CocoHarness.Projection
