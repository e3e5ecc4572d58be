/-
# CocoHarness.Storage.Domain — the write chain of a key-value domain.

An open domain keeps its records three times: in memory, on the medium of its backend unit, and in the
`domain/changed` events it emits.  Every write queues on one chain; its job decides what to write from the memory it
finds, awaits the unit, then changes memory, then emits.  Between these moments others call the domain, also the
listeners of its events.
-/
import Mathlib.Data.Option.Basic
import CocoHarness.Lib.Machine

namespace CocoHarness.Storage

open Lib Function List Machine

universe u

variable {V : Type u}

/-! ## The declaration and the medium -/

/-- Where a value is kept: one record of a declared table, or the global singleton. -/
inductive Slot where
  | global
  | record (table key : String)
  deriving DecidableEq, Repr

/-- A schema answers what it parses a stored value to, and nothing when it throws. -/
structure DomainSpec (V : Type u) where
  name : String
  global : Option ((V → Option V) × V) := none
  tables : List (String × (V → Option V)) := []

/-- What a unit loads: the records of each table, and the global, when one has been written. -/
structure Snapshot (V : Type u) where
  tables : List (String × List (String × V)) := []
  global : Option V := none

variable (snapshot : Snapshot V)

def Snapshot.records (table : String) : List (String × V) :=
  (snapshot.tables.lookup table).getD []

abbrev Store (V : Type u) := Slot → Option V

def Snapshot.medium : Store V
  | .global => snapshot.global
  | .record table key => (snapshot.records table).lookup key

def DomainSpec.declares (spec : DomainSpec V) : Slot → Bool
  | .global => spec.global.isSome
  | .record table _ => (spec.tables.lookup table).isSome

inductive DomainErrorCode where
  | invalidRecord (table key : String)
  | missingKey (table key : String)
  | closed
  deriving DecidableEq, Repr

def parseRecords (table : String) (parse : V → Option V) :
    List (String × V) → Except DomainErrorCode (List (String × V))
  | [] => .ok []
  | (key, raw) :: rest =>
    match parse raw with
    | none => .error (.invalidRecord table key)
    | some value => (parseRecords table parse rest).map ((key, value) :: ·)

def parseTables (snapshot : Snapshot V) :
    List (String × (V → Option V)) → Except DomainErrorCode (List (String × List (String × V)))
  | [] => .ok []
  | (table, parse) :: rest => do
    let records ← parseRecords table parse (snapshot.records table)
    let tables ← parseTables snapshot rest
    return (table, records) :: tables

/-- The value that a global starts with: the spec's own when none has been written. -/
def parseGlobal : Option ((V → Option V) × V) → Except DomainErrorCode (Option V)
  | none => .ok none
  | some (parse, initial) =>
    match snapshot.global with
    | none => .ok (some initial)
    | some raw =>
      match parse raw with
      | none => .error (.invalidRecord "" "")
      | some value => .ok (some value)

/-! ## Operations -/

/-- A write.  The function of an `update` answers nothing when it throws. -/
inductive Op (V : Type u) where
  | set (value : V)
  | put (table key : String) (value : V)
  | delete (table key : String)
  | update (table key : String) (fn : V → Option V)

def Op.slot : Op V → Slot
  | .set _ => .global
  | .put table key _ | .delete table key | .update table key _ => .record table key

inductive Outcome (V : Type u) where
  | done
  | deleted (existed : Bool)
  | updated (next : V)
  | failed (code : DomainErrorCode)
  | fnThrew
  | unitFailed
  deriving DecidableEq, Repr

def Outcome.isFailure : Outcome V → Bool
  | .failed _ | .fnThrew | .unitFailed => true
  | .done | .deleted _ | .updated _ => false

/-- `domain/changed`: what has landed where; nothing for a deletion. -/
structure DomainChanged (V : Type u) where
  domain : String
  slot : Slot
  value : Option V
  deriving DecidableEq, Repr

/-- A write that a job awaits, and the outcome it has when it succeeds. -/
structure Write (V : Type u) where
  slot : Slot
  value : Option V
  outcome : Outcome V

/-- A job at its turn: it settles at once, or it has something to write. -/
def Op.begin (memory : Store V) : Op V → Except (Outcome V) (Write V)
  | .set value => .ok ⟨.global, some value, .done⟩
  | .put table key value => .ok ⟨.record table key, some value, .done⟩
  | .delete table key =>
    match memory (.record table key) with
    | none => .error (.deleted false)
    | some _ => .ok ⟨.record table key, none, .deleted true⟩
  | .update table key fn =>
    match memory (.record table key) with
    | none => .error (.failed (.missingKey table key))
    | some current =>
      match fn current with
      | none => .error .fnThrew
      | some next => .ok ⟨.record table key, some next, .updated next⟩

/-! ## The domain -/

/-- An open domain, with what its callers and listeners have seen of it. -/
structure Domain (V : Type u) where
  spec : DomainSpec V
  /-- The in-memory state. -/
  memory : Store V
  /-- The medium of the unit. -/
  medium : Store V
  /-- Jobs that wait for their turn on the chain. -/
  chain : List (Op V) := []
  /-- The job that awaits the unit, with its write, and whether the medium already holds it. -/
  running : Option (Op V × Write V × Bool) := none
  disposing : Bool := false
  /-- The unit has been released, and reads reject. -/
  closed : Bool := false
  /-- Every accepted operation, in the order of the calls. -/
  calls : List (Op V) := []
  /-- Every operation rejected at its call. -/
  refused : List (Op V) := []
  /-- Every settled operation: whether the unit did its part, and the outcome. -/
  settled : List (Op V × Bool × Outcome V) := []
  /-- Every event, with the memory that its listeners read. -/
  emitted : List (DomainChanged V × Store V) := []

/-- `DomainFacility.open`, once the backend has opened its unit. -/
def DomainSpec.openWith (spec : DomainSpec V) (snapshot : Snapshot V) : Except DomainErrorCode (Domain V) := do
  let tables ← parseTables snapshot spec.tables
  let globalValue ← parseGlobal snapshot spec.global
  return {
    spec
    memory := Snapshot.medium { tables, global := globalValue }
    medium := snapshot.medium }

inductive Act (V : Type u) where
  /-- An operation is called, by a client or by a listener. -/
  | call (op : Op V)
  /-- The next job of the chain runs until it awaits the unit. -/
  | begins
  /-- The medium takes the write. -/
  | lands
  /-- The write settles, and the job runs to its end. -/
  | settles (ok : Bool)
  | close
  /-- The chain has drained, and the unit is released. -/
  | released

namespace Domain

variable (m : Domain V)

def call (op : Op V) : Domain V :=
  if m.disposing then { m with refused := m.refused ++ [op] }
  else { m with chain := m.chain ++ [op], calls := m.calls ++ [op] }

def begins : Option (Domain V) :=
  match m.running, m.chain with
  | none, op :: chain =>
    match op.begin m.memory with
    | .error outcome => some { m with chain, settled := m.settled ++ [(op, true, outcome)] }
    | .ok write => some { m with chain, running := some (op, write, false) }
  | _, _ => none

def lands : Option (Domain V) :=
  match m.running with
  | some (op, write, false) =>
    some { m with
      medium := Function.update m.medium write.slot write.value
      running := some (op, write, true) }
  | _ => none

/-- The end of a job: memory first, then the event, then the outcome. -/
def settles (ok : Bool) : Option (Domain V) :=
  match m.running with
  | some (op, write, landed) =>
    if landed = ok then
      if ok then
        let memory := Function.update m.memory write.slot write.value
        some { m with
          memory
          running := none
          emitted := m.emitted ++ [(⟨m.spec.name, write.slot, write.value⟩, memory)]
          settled := m.settled ++ [(op, true, write.outcome)] }
      else some { m with running := none, settled := m.settled ++ [(op, false, .unitFailed)] }
    else none
  | none => none

def released : Option (Domain V) :=
  if m.disposing ∧ m.running.isNone ∧ m.chain.isEmpty then some { m with closed := true } else none

/-- A call on an undeclared table or global throws and changes nothing. -/
def step : Act V → Option (Domain V)
  | .call op => if m.spec.declares op.slot then some (m.call op) else none
  | .begins => m.begins
  | .lands => m.lands
  | .settles ok => m.settles ok
  | .close => some { m with disposing := true }
  | .released => m.released

end Domain

/-! ## One operation at a time -/

/-- The operation as a whole: the store after it, its outcome and its event. -/
def Op.perform (name : String) (store : Store V) (op : Op V) (ok : Bool) :
    Store V × Outcome V × Option (DomainChanged V) :=
  match op.begin store with
  | .error outcome => (store, outcome, none)
  | .ok write =>
    if ok then (Function.update store write.slot write.value, write.outcome, some ⟨name, write.slot, write.value⟩)
    else (store, .unitFailed, none)

/-- Operations one after another, each with the answer of the unit. -/
def Store.replay (name : String) (store : Store V) :
    List (Op V × Bool) → Store V × List (Outcome V) × List (DomainChanged V × Store V)
  | [] => (store, [], [])
  | (op, ok) :: rest =>
    let first := op.perform name store ok
    let later := Store.replay name first.1 rest
    (later.1, first.2.1 :: later.2.1, (first.2.2.map fun event => (event, first.1)).toList ++ later.2.2)

theorem Store.replay_snoc (name : String) (store : Store V) (history : List (Op V × Bool)) (op : Op V) (ok : Bool) :
    Store.replay name store (history ++ [(op, ok)]) =
      let before := Store.replay name store history
      let last := op.perform name before.1 ok
      (last.1, before.2.1 ++ [last.2.1], before.2.2 ++ (last.2.2.map fun event => (event, last.1)).toList) := by
  induction history generalizing store with
  | nil => simp [Store.replay]
  | cons entry history ih =>
    obtain ⟨op', ok'⟩ := entry
    simp only [cons_append, Store.replay, ih, append_assoc]

variable {store : Store V} {op : Op V} {write : Write V}

theorem Op.begin_ok (h : op.begin store = .ok write) : write.slot = op.slot ∧ write.outcome.isFailure = false := by
  cases op with
  | set value | put table key value =>
    cases h
    exact ⟨rfl, rfl⟩
  | delete table key =>
    simp only [Op.begin] at h
    split at h
    · cases h
    · cases h
      exact ⟨rfl, rfl⟩
  | update table key fn =>
    simp only [Op.begin] at h
    split at h
    · cases h
    · split at h
      · cases h
      · cases h
        exact ⟨rfl, rfl⟩

variable {name : String}

theorem Op.perform_error {ok : Bool} {outcome : Outcome V}
    (h : op.begin store = .error outcome) : op.perform name store ok = (store, outcome, none) := by
  rw [Op.perform, h]

theorem Op.perform_ok (h : op.begin store = .ok write) : op.perform name store true
      = (Function.update store write.slot write.value, write.outcome, some ⟨name, write.slot, write.value⟩) := by
  rw [Op.perform, h]
  rfl

theorem Op.perform_unitFailed (h : op.begin store = .ok write) :
    op.perform name store false = (store, .unitFailed, none) := by
  rw [Op.perform, h]
  rfl

/-! ## The chain -/

namespace Domain

variable {m m' : Domain V}

def history (m : Domain V) : List (Op V × Bool) := m.settled.map fun entry => (entry.1, entry.2.1)

def written (m : Domain V) : List Slot := m.emitted.map fun entry => entry.1.slot

/-- The domain is what its operations make of it, one at a time. -/
structure Serial (opened m : Domain V) : Prop where
  spec : m.spec = opened.spec
  /-- Memory, outcomes and events are those of the settled operations. -/
  replay : Store.replay opened.spec.name opened.memory m.history = (m.memory, m.settled.map (·.2.2), m.emitted)
  /-- The operations take their turns in the order of the calls. -/
  order : m.settled.map (·.1) ++ (m.running.map (·.1)).toList ++ m.chain = m.calls
  /-- The running job has decided on the memory there is. -/
  decided : ∀ op write landed, m.running = some (op, write, landed) → op.begin m.memory = .ok write
  /-- What is on the medium, but for a write that has just landed. -/
  agrees : ∀ slot, (∀ op write, m.running = some (op, write, true) → slot ≠ write.slot) →
    if slot ∈ m.written then m.medium slot = m.memory slot
    else m.medium slot = opened.medium slot ∧ m.memory slot = opened.memory slot
  landed : ∀ op write, m.running = some (op, write, true) → m.medium write.slot = write.value
  /-- Nothing is left to do once the unit has been released. -/
  drained : m.closed → m.disposing ∧ m.running = none ∧ m.chain = []

theorem Serial.of_open (m : Domain V) (hchain : m.chain = []) (hrunning : m.running = none) (hcalls : m.calls = [])
    (hsettled : m.settled = []) (hemitted : m.emitted = []) (hclosed : m.closed = false) : m.Serial m where
  spec := rfl
  replay := by rw [history, hsettled, hemitted]; rfl
  order := by rw [hsettled, hrunning, hchain, hcalls]; rfl
  decided := by rw [hrunning]; rintro _ _ _ ⟨⟩
  agrees := by
    intro slot _
    rw [written, hemitted, map_nil, if_neg not_mem_nil]
    exact ⟨rfl, rfl⟩
  landed := by rw [hrunning]; rintro _ _ ⟨⟩
  drained := by rw [hclosed]; rintro ⟨⟩

variable {opened : Domain V}

theorem Serial.replay_snoc (h : Serial opened m) (op : Op V) (ok : Bool) (outcome : Outcome V) :
    Store.replay opened.spec.name opened.memory
        ((m.settled ++ [(op, ok, outcome)]).map fun entry => (entry.1, entry.2.1))
      = ((op.perform opened.spec.name m.memory ok).1,
        m.settled.map (·.2.2) ++ [(op.perform opened.spec.name m.memory ok).2.1],
        m.emitted ++ ((op.perform opened.spec.name m.memory ok).2.2.map fun event =>
          (event, (op.perform opened.spec.name m.memory ok).1)).toList) := by
  have hbefore : Store.replay opened.spec.name opened.memory (m.settled.map fun entry => (entry.1, entry.2.1)) = _ :=
    h.replay
  rw [map_append, map_singleton, Store.replay_snoc, hbefore]

variable {op : Op V} {chain : List (Op V)}

theorem Serial.declines (h : Serial opened m) {outcome : Outcome V}
    (hrunning : m.running = none) (hchain : m.chain = op :: chain)
    (hbegin : op.begin m.memory = .error outcome) :
    Serial opened { m with chain, settled := m.settled ++ [(op, true, outcome)] } where
  spec := h.spec
  replay := by
    refine (h.replay_snoc op true outcome).trans ?_
    rw [Op.perform_error hbegin, map_append]
    simp
  order := by
    have := h.order
    rw [hrunning, hchain] at this
    simpa [hrunning] using this
  decided := h.decided
  agrees := h.agrees
  landed := h.landed
  drained := by
    intro hclosed
    obtain ⟨-, -, hnone⟩ := h.drained hclosed
    rw [hchain] at hnone
    cases hnone

variable {write : Write V}

theorem Serial.awaits (h : Serial opened m) (hrunning : m.running = none)
    (hchain : m.chain = op :: chain) (hbegin : op.begin m.memory = .ok write) :
    Serial opened { m with chain, running := some (op, write, false) } where
  spec := h.spec
  replay := h.replay
  order := by
    have := h.order
    rw [hrunning, hchain] at this
    simpa using this
  decided := by
    rintro op' write' landed heq
    cases heq
    exact hbegin
  agrees := by
    intro slot _
    exact h.agrees slot fun op' write' heq => by rw [hrunning] at heq; cases heq
  landed _ _ hheld := by cases hheld
  drained := by
    intro hclosed
    obtain ⟨-, -, hnone⟩ := h.drained hclosed
    rw [hchain] at hnone
    cases hnone

/-- The medium takes the write, ahead of memory until the job goes on. -/
theorem Serial.lands (h : Serial opened m) (hrunning : m.running = some (op, write, false)) : Serial opened { m with
      medium := Function.update m.medium write.slot write.value
      running := some (op, write, true) } where
  spec := h.spec
  replay := h.replay
  order := by
    have := h.order
    rw [hrunning] at this
    exact this
  decided := by
    rintro op' write' landed heq
    cases heq
    exact h.decided op write false hrunning
  agrees := by
    intro slot hother
    have hne : slot ≠ write.slot := hother op write rfl
    have := h.agrees slot fun op' write' heq => by rw [hrunning] at heq; cases heq
    show if slot ∈ m.written then Function.update m.medium write.slot write.value slot = _
      else Function.update m.medium write.slot write.value slot = _ ∧ _
    rw [update_of_ne hne]
    exact this
  landed := by
    rintro op' write' heq
    cases heq
    exact update_self ..
  drained := by
    intro hclosed
    obtain ⟨-, hnone, -⟩ := h.drained hclosed
    rw [hrunning] at hnone
    cases hnone

theorem Serial.fails (h : Serial opened m) (hrunning : m.running = some (op, write, false)) :
    Serial opened { m with running := none, settled := m.settled ++ [(op, false, .unitFailed)] } where
  spec := h.spec
  replay := by
    refine (h.replay_snoc op false .unitFailed).trans ?_
    rw [Op.perform_unitFailed (h.decided op write false hrunning), map_append]
    simp
  order := by
    have := h.order
    rw [hrunning] at this
    simpa using this
  decided _ _ _ hheld := by cases hheld
  agrees := by
    intro slot _
    exact h.agrees slot fun op' write' heq => by rw [hrunning] at heq; cases heq
  landed _ _ hheld := by cases hheld
  drained := by
    intro hclosed
    obtain ⟨-, hnone, -⟩ := h.drained hclosed
    rw [hrunning] at hnone
    cases hnone

theorem Serial.succeeds (h : Serial opened m) (hrunning : m.running = some (op, write, true)) : Serial opened { m with
      memory := Function.update m.memory write.slot write.value
      running := none
      emitted := m.emitted ++
        [(⟨m.spec.name, write.slot, write.value⟩, Function.update m.memory write.slot write.value)]
      settled := m.settled ++ [(op, true, write.outcome)] } where
  spec := h.spec
  replay := by
    refine (h.replay_snoc op true write.outcome).trans ?_
    rw [Op.perform_ok (h.decided op write true hrunning), h.spec, map_append]
    simp
  order := by
    have := h.order
    rw [hrunning] at this
    simpa using this
  decided _ _ _ hheld := by cases hheld
  agrees := by
    intro slot _
    by_cases heq : slot = write.slot
    · subst heq
      rw [if_pos]
      · show m.medium write.slot = Function.update m.memory write.slot write.value write.slot
        rw [h.landed op write hrunning, update_self]
      · simp [written]
    · have := h.agrees slot fun op' write' heq' => by
        rw [hrunning] at heq'
        cases heq'
        exact heq
      have hmem : slot ∈ written { m with
          memory := Function.update m.memory write.slot write.value
          running := none
          emitted := m.emitted ++
            [(⟨m.spec.name, write.slot, write.value⟩, Function.update m.memory write.slot write.value)]
          settled := m.settled ++ [(op, true, write.outcome)] } ↔ slot ∈ m.written := by
        simp [written, heq]
      show if slot ∈ written _ then m.medium slot = Function.update m.memory write.slot write.value slot
        else _ ∧ Function.update m.memory write.slot write.value slot = _
      rw [update_of_ne heq]
      split
      · rename_i hin
        rwa [if_pos (hmem.mp hin)] at this
      · rename_i hout
        rwa [if_neg fun hin => hout (hmem.mpr hin)] at this
  landed _ _ hheld := by cases hheld
  drained := by
    intro hclosed
    obtain ⟨-, hnone, -⟩ := h.drained hclosed
    rw [hrunning] at hnone
    cases hnone

variable {act : Act V}

theorem Serial.step (h : Serial opened m) (hstep : m.step act = some m') : Serial opened m' := by
  cases act with
  | call op =>
    simp only [Domain.step, Domain.call] at hstep
    split at hstep
    · cases hstep
      split
      · exact ⟨h.spec, h.replay, h.order, h.decided, h.agrees, h.landed, h.drained⟩
      · rename_i hopen
        refine ⟨h.spec, h.replay, ?_, h.decided, h.agrees, h.landed, fun hclosed => ?_⟩
        · show _ ++ (m.chain ++ [op]) = m.calls ++ [op]
          rw [← append_assoc, h.order]
        · exact absurd (h.drained hclosed).1 hopen
    · cases hstep
  | begins =>
    simp only [Domain.step, Domain.begins] at hstep
    split at hstep
    · rename_i op chain hrunning hchain
      split at hstep
      · rename_i outcome hbegin
        cases hstep
        exact h.declines hrunning hchain hbegin
      · rename_i write hbegin
        cases hstep
        exact h.awaits hrunning hchain hbegin
    · cases hstep
  | lands =>
    simp only [Domain.step, Domain.lands] at hstep
    split at hstep
    · rename_i op write hrunning
      cases hstep
      exact h.lands hrunning
    · cases hstep
  | settles ok =>
    simp only [Domain.step, Domain.settles] at hstep
    split at hstep
    · rename_i op write landed hrunning
      split at hstep
      · rename_i hlanded
        subst hlanded
        cases landed with
        | true =>
          cases hstep
          exact h.succeeds hrunning
        | false =>
          cases hstep
          exact h.fails hrunning
      · cases hstep
    · cases hstep
  | close =>
    cases hstep
    exact ⟨h.spec, h.replay, h.order, h.decided, h.agrees, h.landed, fun hclosed => ⟨rfl, (h.drained hclosed).2⟩⟩
  | released =>
    simp only [Domain.step, Domain.released] at hstep
    split at hstep
    · rename_i hdrained
      obtain ⟨hdisposing, hrunning, hchain⟩ := hdrained
      cases hstep
      exact ⟨h.spec, h.replay, h.order, h.decided, h.agrees, h.landed,
        fun _ => ⟨hdisposing, Option.isNone_iff_eq_none.mp hrunning, isEmpty_iff.mp hchain⟩⟩
    · cases hstep

/-! ## Single steps -/

/-- What a listener and a caller can rely on, whatever happens next. -/
structure Faithful (m m' : Domain V) : Prop where
  /-- A failed operation changes nothing, and emits nothing. -/
  failed : ∀ entry, m'.settled = m.settled ++ [entry] → entry.2.2.isFailure →
    m'.memory = m.memory ∧ m'.medium = m.medium ∧ m'.emitted = m.emitted
  /-- An event carries what memory holds as it is emitted. -/
  emits : ∀ event seen, m'.emitted = m.emitted ++ [(event, seen)] → seen = m'.memory ∧ m'.memory event.slot = event.value
  /-- Once the close has begun, no operation is accepted any more. -/
  rejects : m.disposing → m'.disposing ∧ m'.calls = m.calls

theorem ne_append_singleton {α : Type*} {l : List α} {x : α} : l ≠ l ++ [x] := by
  intro h
  have := congrArg List.length h
  rw [length_append, length_singleton] at this
  omega

theorem Faithful.quiet (hsettled : m'.settled = m.settled) (hemitted : m'.emitted = m.emitted)
    (hrejects : m.disposing → m'.disposing ∧ m'.calls = m.calls) : m.Faithful m' where
  failed := fun entry h => absurd (hsettled.symm.trans h) ne_append_singleton
  emits := fun event seen h => absurd (hemitted.symm.trans h) ne_append_singleton
  rejects := hrejects

theorem Faithful.unchanged (hmemory : m'.memory = m.memory) (hmedium : m'.medium = m.medium)
    (hemitted : m'.emitted = m.emitted) (hrejects : m.disposing → m'.disposing ∧ m'.calls = m.calls) :
    m.Faithful m' where
  failed := fun _ _ _ => ⟨hmemory, hmedium, hemitted⟩
  emits := fun event seen h => absurd (hemitted.symm.trans h) ne_append_singleton
  rejects := hrejects

theorem Serial.faithful (h : Serial opened m) (hstep : m.step act = some m') : m.Faithful m' := by
  cases act with
  | call op =>
    simp only [Domain.step, Domain.call] at hstep
    split at hstep
    · cases hstep
      split
      · exact .quiet rfl rfl fun hdisposing => ⟨hdisposing, rfl⟩
      · rename_i hopen
        exact .quiet rfl rfl fun hdisposing => absurd hdisposing hopen
    · cases hstep
  | begins =>
    simp only [Domain.step, Domain.begins] at hstep
    split at hstep
    · split at hstep
      · cases hstep
        exact .unchanged rfl rfl rfl fun hdisposing => ⟨hdisposing, rfl⟩
      · cases hstep
        exact .quiet rfl rfl fun hdisposing => ⟨hdisposing, rfl⟩
    · cases hstep
  | lands =>
    simp only [Domain.step, Domain.lands] at hstep
    split at hstep
    · cases hstep
      exact .quiet rfl rfl fun hdisposing => ⟨hdisposing, rfl⟩
    · cases hstep
  | settles ok =>
    simp only [Domain.step, Domain.settles] at hstep
    split at hstep
    · rename_i op write landed hrunning
      split at hstep
      · cases ok with
        | false =>
          cases hstep
          exact .unchanged rfl rfl rfl fun hdisposing => ⟨hdisposing, rfl⟩
        | true =>
          cases hstep
          refine ⟨fun entry heq hfailure => ?_, fun event seen heq => ?_, fun hdisposing => ⟨hdisposing, rfl⟩⟩
          · -- a write that has landed is no failure
            obtain rfl := singleton_inj.mp (append_cancel_left heq)
            rw [(Op.begin_ok (h.decided op write landed hrunning)).2] at hfailure
            cases hfailure
          · obtain heq := singleton_inj.mp (append_cancel_left heq)
            simp only [Prod.mk.injEq] at heq
            obtain ⟨rfl, rfl⟩ := heq
            exact ⟨rfl, update_self ..⟩
      · cases hstep
    · cases hstep
  | close =>
    cases hstep
    exact .quiet rfl rfl fun _ => ⟨rfl, rfl⟩
  | released =>
    simp only [Domain.step, Domain.released] at hstep
    split at hstep
    · cases hstep
      exact .quiet rfl rfl fun hdisposing => ⟨hdisposing, rfl⟩
    · cases hstep

/-! ## The drain -/

theorem drains (m : Domain V) (hrunning : m.running = none) :
    ∃ acts m', exec Domain.step m acts = some m' ∧ m'.running = none ∧ m'.chain = [] ∧ m'.calls = m.calls
      ∧ m'.disposing = m.disposing := by
  generalize hlength : m.chain.length = n
  induction n generalizing m with
  | zero => exact ⟨[], m, rfl, hrunning, length_eq_zero_iff.mp hlength, rfl, rfl⟩
  | succ n ih =>
    cases hchain : m.chain with
    | nil =>
      rw [hchain] at hlength
      cases hlength
    | cons op chain =>
      rw [hchain, length_cons, Nat.add_right_cancel_iff] at hlength
      cases hbegin : op.begin m.memory with
      | error outcome =>
        obtain ⟨acts, m', hrun, hdone⟩ :=
          ih { m with chain, settled := m.settled ++ [(op, true, outcome)] } hrunning hlength
        refine ⟨.begins :: acts, m', ?_, hdone⟩
        show ((m.begins).bind fun m => exec Domain.step m acts) = some m'
        rw [begins, hrunning, hchain]
        simpa [hbegin, hrunning] using hrun
      | ok write =>
        -- the write lands, and the job runs to its end
        have hsteps : ∃ mid, exec Domain.step m [.begins, .lands, .settles true] = some mid ∧ mid.running = none
            ∧ mid.chain = chain ∧ mid.calls = m.calls ∧ mid.disposing = m.disposing := by
          refine ⟨{ m with
            chain
            medium := Function.update m.medium write.slot write.value
            memory := Function.update m.memory write.slot write.value
            running := none
            emitted := m.emitted ++
              [(⟨m.spec.name, write.slot, write.value⟩, Function.update m.memory write.slot write.value)]
            settled := m.settled ++ [(op, true, write.outcome)] }, ?_, rfl, rfl, rfl, rfl⟩
          show ((m.begins).bind fun m => exec Domain.step m [.lands, .settles true]) = _
          rw [begins, hrunning, hchain]
          simp [hbegin, exec, Domain.step, Domain.lands, Domain.settles]
        obtain ⟨mid, hmid, hidle, hrest, hcalls, hdisposing⟩ := hsteps
        obtain ⟨acts, m', hrun, hnone, hempty, hcalls', hdisposing'⟩ := ih mid hidle (by rw [hrest]; exact hlength)
        refine ⟨[.begins, .lands, .settles true] ++ acts, m', ?_, hnone, hempty, hcalls'.trans hcalls,
          hdisposing'.trans hdisposing⟩
        rw [exec_append, hmid]
        exact hrun

/-- **Every accepted operation can be carried out**, also when the close has begun. -/
theorem carriedOut (h : Serial opened m) :
    ∃ acts m', exec Domain.step m acts = some m' ∧ m'.settled.map (·.1) = m.calls ∧ m'.calls = m.calls
      ∧ m'.disposing = m.disposing := by
  have hidle : ∃ acts mid, exec Domain.step m acts = some mid ∧ mid.running = none ∧ mid.calls = m.calls
      ∧ mid.disposing = m.disposing := by
    cases hrunning : m.running with
    | none => exact ⟨[], m, rfl, hrunning, rfl, rfl⟩
    | some job =>
      obtain ⟨op, write, landed⟩ := job
      have hsettles : (m.settles landed).isSome := by
        rw [settles, hrunning]
        cases landed <;> rfl
      obtain ⟨mid, hmid⟩ := Option.isSome_iff_exists.mp hsettles
      refine ⟨[.settles landed], mid, ?_, ?_⟩
      · show ((m.settles landed).bind fun m => some m) = some mid
        rw [hmid]
        rfl
      · rw [settles, hrunning] at hmid
        cases landed with
        | true | false =>
          cases hmid
          exact ⟨rfl, rfl, rfl⟩
  obtain ⟨acts, mid, hrun, hidle, hcalls, hdisposing⟩ := hidle
  obtain ⟨acts', m', hrun', hnone, hempty, hcalls', hdisposing'⟩ := drains mid hidle
  have hserial : Serial opened m' := by
    have hmid : Serial opened mid :=
      exec_invariant (I := Serial opened) (fun _ _ _ _ h hstep => h.step hstep) h hrun
    exact exec_invariant (I := Serial opened) (fun _ _ _ _ h hstep => h.step hstep) hmid hrun'
  refine ⟨acts ++ acts', m', ?_, ?_, hcalls'.trans hcalls, hdisposing'.trans hdisposing⟩
  · rw [exec_append, hrun]
    exact hrun'
  · have horder := hserial.order
    rw [hnone, hempty] at horder
    simpa [hcalls', hcalls] using horder

end Domain

/-! ## Over every run -/

variable {spec : DomainSpec V} {snapshot : Snapshot V}

theorem DomainSpec.openWith_serial {opened : Domain V}
    (hopen : spec.openWith snapshot = .ok opened) : opened.Serial opened ∧ opened.medium = snapshot.medium := by
  simp only [openWith, bind, Except.bind, pure, Except.pure] at hopen
  split at hopen
  · cases hopen
  · split at hopen
    · cases hopen
    · cases hopen
      exact ⟨.of_open _ rfl rfl rfl rfl rfl rfl, rfl⟩

/-- **The write chain is serial.**  Whatever the unit answers and whoever calls in between, the domain is what its
operations make of it when performed one at a time in the order of the calls; each step is faithful to listeners and
callers; and everything accepted can still be carried out. -/
theorem chain_serial {opened m : Domain V} {acts : List (Act V)}
    (hopen : spec.openWith snapshot = .ok opened) (hrun : Machine.exec Domain.step opened acts = some m) :
    opened.Serial m ∧ Machine.Along Domain.step (fun n act => ∀ n', n.step act = some n' → n.Faithful n') opened acts
      ∧ (m.closed → m.settled.map (·.1) = m.calls)
      ∧ ∃ acts' m', Machine.exec Domain.step m acts' = some m' ∧ m'.settled.map (·.1) = m.calls ∧ m'.calls = m.calls
        ∧ m'.disposing = m.disposing := by
  have hstart := (DomainSpec.openWith_serial hopen).1
  have hserial : opened.Serial m :=
    Machine.exec_invariant (I := opened.Serial) (fun _ _ _ _ h hstep => h.step hstep) hstart hrun
  refine ⟨hserial, ?_, fun hclosed => ?_, Domain.carriedOut hserial⟩
  · apply Machine.Along.of_invariant (I := opened.Serial) (P := fun _ _ => True)
    · exact fun n act n' h _ hstep => h.step hstep
    · exact fun n act h _ n' hstep => h.faithful hstep
    · exact hstart
    · exact Machine.Along.of_forall (fun _ _ => trivial) opened
  · obtain ⟨-, hnone, hempty⟩ := hserial.drained hclosed
    have horder := hserial.order
    rw [hnone, hempty] at horder
    simpa using horder

/-- A domain with a global that has never been written, and one table. -/
def counter : DomainSpec Nat where
  name := "counter"
  global := some (some, 7)
  tables := [("records", some)]

def onePut : List (Act Nat) := [.call (.put "records" "key" 1), .begins, .lands, .settles true]

/-- The run of one put: it has settled, and nothing else is under way. -/
theorem chain_serial_onePut : ∃ opened m, counter.openWith {} = .ok opened
    ∧ Machine.exec Domain.step opened onePut = some m ∧ opened.Serial m ∧ m.memory (.record "records" "key") = some 1 := by
  refine ⟨_, _, rfl, rfl, ?_, by decide⟩
  exact (@chain_serial Nat counter {} _ _ onePut rfl rfl).1

/-- **Memory is ahead of the medium by the initial value** after a put has settled with success. -/
theorem initial_not_stored : ∃ opened m, counter.openWith {} = .ok opened
    ∧ Machine.exec Domain.step opened onePut = some m ∧ m.running.isNone ∧ m.chain.isEmpty
    ∧ m.memory .global = some 7 ∧ m.medium .global = none :=
  ⟨_, _, rfl, rfl, rfl, rfl, by decide, by decide⟩

end CocoHarness.Storage
