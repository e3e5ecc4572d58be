/-
# CocoHarness.Settings.Provider — namespaced settings over one user-editable document.

The service keeps the provider's latest document in memory, and for each registered namespace a resolved value and a
revision of its raw section.  A write waits for its turn in the queue of its namespace, derives its section from the
one stored at that moment, checks it, and hands it to the provider; it is committed when the provider has stored it.

The file provider runs writes and reloads one at a time.  What a text parses to, and how a section is patched into
one, is the format's own (`Codec`).
-/
import Mathlib.Data.Option.Basic
import CocoHarness.Lib.Json
import CocoHarness.Lib.Machine

namespace CocoHarness.Settings

open Lib Function

/-! ## Sections -/

abbrev Fields := List (String × Json)

def setField (key : String) (value : Json) : Fields → Fields
  | [] => [(key, value)]
  | (k, v) :: rest => if k = key then (key, value) :: rest else (k, v) :: setField key value rest

mutual

/-- `deepEqualJson`: equality up to the order of the fields.  A value is equal to itself. -/
def deepEqualJson : Json → Json → Bool
  | .arr a, .arr b => decide (a = b) || deepEqualItems a b
  | .obj a, .obj b => decide (a = b) || (a.length == b.length && deepEqualFields a b)
  | a, b => decide (a = b)

def deepEqualItems : List Json → List Json → Bool
  | [], [] => true
  | x :: xs, y :: ys => deepEqualJson x y && deepEqualItems xs ys
  | _, _ => false

/-- Every field of the first is in the second, with an equal value. -/
def deepEqualFields : Fields → Fields → Bool
  | [], _ => true
  | (key, value) :: rest, other =>
    (match other.lookup key with
      | some value' => deepEqualJson value value'
      | none => false) && deepEqualFields rest other

end

theorem deepEqualJson_refl (a : Json) : deepEqualJson a a = true := by
  cases a with
  | arr items | obj fields => simp [deepEqualJson]
  | _ => simp [deepEqualJson]

def deepEqual : Option Json → Option Json → Bool
  | none, none => true
  | some a, some b => deepEqualJson a b
  | _, _ => false

mutual

/-- `mergeLayers`: objects merge, and every other value replaces what is under it. -/
def mergeLayers : Json → Json → Json
  | .obj under, .obj fields => .obj (mergeFields under fields)
  | _, upper => upper

def mergeFields : Fields → Fields → Fields
  | merged, [] => merged
  | merged, (key, value) :: rest =>
    mergeFields
      (setField key (match merged.lookup key with
        | some under => mergeLayers under value
        | none => value) merged)
      rest

end

def mergeLayers? : Option Json → Option Json → Option Json
  | under, none => under
  | none, some upper => some upper
  | some under, some upper => some (mergeLayers under upper)

inductive PathOp where
  | set (path : List String) (value : Json)
  | unset (path : List String)
  deriving DecidableEq

/-- `set` at a path: what is not an object on the way is replaced by one. -/
def setPath (value : Json) : List String → Fields → Fields
  | [], section_ => section_
  | [head], section_ => setField head value section_
  | head :: rest, section_ =>
    match section_.lookup head with
    | some (.obj child) => setField head (.obj (setPath value rest child)) section_
    | _ => setField head (.obj (setPath value rest [])) section_

/-- `unset` at a path: one that leads through something absent is satisfied already. -/
def unsetPath : List String → Fields → Fields
  | [], _ => []
  | [head], section_ => section_.filter (·.1 ≠ head)
  | head :: rest, section_ =>
    match section_.lookup head with
    | some (.obj child) => setField head (.obj (unsetPath rest child)) section_
    | _ => section_

def applyPathOp (section_ : Fields) : PathOp → Option Fields
  | .set [] (.obj fields) => some fields
  | .set [] _ => none
  | .set (head :: rest) value => some (setPath value (head :: rest) section_)
  | .unset path => some (unsetPath path section_)

/-! ## Writes -/

inductive Mode where
  | merge (patch : Fields)
  | replace (fields : Fields)
  | mutate (ops : List PathOp)
  deriving DecidableEq

/-- The section that a write stores; nothing when an edit throws. -/
def Mode.apply (current : Fields) : Mode → Option Fields
  | .merge patch => some (mergeFields current patch)
  | .replace fields => some fields
  | .mutate ops => ops.foldlM applyPathOp current

structure Write where
  mode : Mode
  expectedRevision : Option Nat := none
  deriving DecidableEq

structure Running where
  write : Write
  /-- The section it derives from. -/
  current : Fields
  fields : Fields
  next : Json
  /-- Ghost: how often the raw section had changed when the write read it. -/
  readAt : Nat

structure Registration where
  /-- The schema: what a candidate resolves to, and nothing when it throws. -/
  schema : Option Json → Option Json
  base : Option Json := none
  /-- The check of the owner: it does not throw. -/
  validate : Json → Bool := fun _ => true
  resolved : Json
  revision : Nat := 0

def Registration.resolve (registration : Registration) (fields : Option Fields) : Option Json :=
  (registration.schema (mergeLayers? registration.base (fields.map .obj))).filter registration.validate

/-- `bumpRevision` for the raw section, then `commit` of the resolved value. -/
def Registration.commit (registration : Registration) (before after : Option Json) (next : Json) : Registration :=
  { registration with
    revision := if deepEqual before after then registration.revision else registration.revision + 1
    resolved := if deepEqualJson next registration.resolved then registration.resolved else next }

/-! ## The service -/

structure SettingsProvider where
  registrations : String → Option Registration
  document : String → Option Json
  stopped : Bool := false
  queues : String → List Write := fun _ => []
  running : String → Option Running := fun _ => none
  /-- Ghost: how often the raw section of a namespace has changed. -/
  edits : String → Nat := fun _ => 0

namespace SettingsProvider

variable (m : SettingsProvider)

def section? (ns : String) : Except Unit (Option Fields) :=
  match m.document ns with
  | none => .ok none
  | some (.obj fields) => .ok (some fields)
  | some _ => .error ()

/-- The section before a publish; a malformed one counts as absent. -/
def before (ns : String) : Option Json :=
  match m.section? ns with
  | .ok fields => fields.map .obj
  | .error _ => none

/-- The raw section as a write finds it: an absent one is empty. -/
def raw (ns : String) : Json := (m.document ns).getD (.obj [])

/-- The count of changes, when the raw section becomes another one. -/
def edited (ns : String) (after : Json) : Nat :=
  if deepEqualJson (m.raw ns) after then m.edits ns else m.edits ns + 1

/-- Re-resolve a namespace; a section that does not resolve leaves it as it is. -/
def republished (m published : SettingsProvider) (ns : String) (registration : Registration) : Registration :=
  match published.section? ns with
  | .error _ => registration
  | .ok fields =>
    match registration.resolve fields with
    | none => registration
    | some next => registration.commit (m.before ns) (fields.map .obj) next

def publish (document : String → Option Json) : SettingsProvider :=
  let published := { m with document }
  { published with
    registrations := fun ns => (m.registrations ns).map (m.republished published ns)
    edits := fun ns => m.edited ns (published.raw ns) }

def write (ns : String) (write : Write) : SettingsProvider :=
  if (m.registrations ns).isNone ∨ m.stopped then m
  else { m with queues := update m.queues ns (m.queues ns ++ [write]) }

/-- The checks of a write at its turn, up to `await this.persist`. -/
def admitted (ns : String) (write : Write) : Option Running := do
  guard (¬ m.stopped)
  let registration ← m.registrations ns
  let stored ← (m.section? ns).toOption
  guard (write.expectedRevision.all (· = registration.revision))
  let fields ← write.mode.apply (stored.getD [])
  let next ← registration.resolve (some fields)
  return { write, current := stored.getD [], fields, next, readAt := m.edits ns }

def commits (ns : String) (running : Running) : SettingsProvider :=
  { m with
    document := update m.document ns (some (.obj running.fields))
    running := update m.running ns none
    registrations :=
      if m.stopped then m.registrations
      else update m.registrations ns ((m.registrations ns).map fun registration =>
        registration.commit (some (.obj running.current)) (some (.obj running.fields)) running.next)
    edits := update m.edits ns (m.edited ns (.obj running.fields)) }

def rejects (ns : String) : SettingsProvider := { m with running := update m.running ns none }

end SettingsProvider

/-! ## The file -/

structure Codec (Text : Type) where
  parse : Text → Option (String → Option Json)
  /-- A document with this section only. -/
  fresh : String → Fields → Text
  /-- The document with this section in its place. -/
  patch : Text → String → Fields → Text
  /-- The document that is created empty. -/
  empty : Text

inductive FileOp where
  | persist (ns : String) (fields : Fields)
  | refresh
  | prepare
  deriving DecidableEq

inductive FileStage (Text : Type) where
  | waiting
  /-- The file has been read. -/
  | read (found : Option Text)
  /-- The section has been rendered. -/
  | rendered (output : Text)

structure FileSettingsProvider (Text : Type) where
  service : SettingsProvider
  /-- The file, unless it is absent. -/
  disk : Option Text
  /-- The text last parsed or persisted. -/
  text : Option Text
  closed : Bool := false
  operations : List FileOp := []
  stage : FileStage Text := .waiting

namespace FileSettingsProvider

variable {Text : Type}

variable (m : FileSettingsProvider Text)

def begins (ns : String) : Option (FileSettingsProvider Text) :=
  match m.service.running ns, m.service.queues ns with
  | none, write :: queue =>
    let service := { m.service with queues := update m.service.queues ns queue }
    match m.service.admitted ns write with
    | none => some { m with service }
    | some running => some { m with
        service := { service with running := update m.service.running ns (some running) }
        operations := m.operations ++ [.persist ns running.fields] }
  | _, _ => none

def next : FileSettingsProvider Text :=
  { m with operations := m.operations.tail, stage := .waiting }

def reads : Option (FileSettingsProvider Text) :=
  match m.operations, m.stage with
  | .persist .. :: _, .waiting | .refresh :: _, .waiting => some { m with stage := .read m.disk }
  | _, _ => none

/-- The operation at the head has failed, and with a persist its write. -/
def rejects : FileSettingsProvider Text :=
  match m.operations with
  | .persist ns _ :: _ => { m.next with service := m.service.rejects ns }
  | _ => m.next

/-- What `reconcileFromDisk` publishes: nothing for the text it knows, an error when it does not parse. -/
def reconciled [DecidableEq Text] (codec : Codec Text) (m : FileSettingsProvider Text) (found : Option Text) :
    Except Unit (Option (String → Option Json)) :=
  if found = m.text ∨ m.closed then .ok none
  else
    match found with
    | none => .ok (some fun _ => none)
    | some text =>
      match codec.parse text with
      | none => .error ()
      | some document => .ok (some document)

def reconcileFromDisk [DecidableEq Text] (codec : Codec Text) (m : FileSettingsProvider Text) (found : Option Text) :
    Except Unit (FileSettingsProvider Text) := do
  match ← m.reconciled codec found with
  | none => return m
  | some document => return { m with service := m.service.publish document, text := found }

/-- The operation at the head goes on after the read, to its next `await`. -/
def reconciles [DecidableEq Text] (codec : Codec Text) (m : FileSettingsProvider Text) :
    Option (FileSettingsProvider Text) :=
  match m.operations, m.stage with
  | .persist ns fields :: _, .read found =>
    match m.reconcileFromDisk codec found with
    | .error _ => some m.rejects
    | .ok m => some { m with stage := .rendered (m.text.elim (codec.fresh ns fields) (codec.patch · ns fields)) }
  | .refresh :: _, .read found =>
    match m.reconcileFromDisk codec found with
    | .error _ => some m.next
    | .ok m => some m.next
  | _, _ => none

/-- `writeFileAtomic` has replaced the file: the write is committed. -/
def lands : Option (FileSettingsProvider Text) :=
  match m.operations, m.stage with
  | .persist ns _ :: _, .rendered output =>
    match m.service.running ns with
    | none => none
    | some running =>
      some { m.next with disk := some output, text := some output, service := m.service.commits ns running }
  | _, _ => none

/-- The operation at the head fails: its lock, its read or its write. -/
def fails : Option (FileSettingsProvider Text) :=
  match m.operations with
  | [] => none
  | _ :: _ => some m.rejects

def prepares (codec : Codec Text) (m : FileSettingsProvider Text) : Option (FileSettingsProvider Text) :=
  match m.operations, m.disk with
  | .prepare :: _, some _ => some m.next
  | .prepare :: _, none =>
    some { m.next with
      disk := some codec.empty
      text := some codec.empty
      service := if m.closed then m.service else m.service.publish fun _ => none }
  | _, _ => none

end FileSettingsProvider

/-! ## Interleavings -/

inductive Act (Text : Type) where
  | write (ns : String) (write : Write)
  | begins (ns : String)
  /-- Someone edits or removes the file. -/
  | edits (disk : Option Text)
  /-- The watcher asks for a reload. -/
  | refresh
  /-- A surface asks for a document to open. -/
  | prepare
  | reads
  | reconciles
  | lands
  | fails
  | prepares
  | stop
  | close

def FileSettingsProvider.step {Text : Type} [DecidableEq Text] (codec : Codec Text) (m : FileSettingsProvider Text) :
    Act Text → Option (FileSettingsProvider Text)
  | .write ns write => some { m with service := m.service.write ns write }
  | .begins ns => m.begins ns
  | .edits disk => some { m with disk }
  | .refresh => some (if m.closed then m else { m with operations := m.operations ++ [.refresh] })
  | .prepare => some { m with operations := m.operations ++ [.prepare] }
  | .reads => m.reads
  | .reconciles => m.reconciles codec
  | .lands => m.lands
  | .fails => m.fails
  | .prepares => m.prepares codec
  | .stop => some { m with service := { m.service with stopped := true } }
  | .close => some { m with closed := true }

/-- The document has been loaded, and each namespace is registered on a section that resolves. -/
structure SettingsProvider.Registered (m : SettingsProvider) : Prop where
  idle : ∀ ns, m.running ns = none
  resolved : ∀ ns registration, m.registrations ns = some registration →
    ∃ fields, m.section? ns = .ok fields ∧ registration.resolve fields = some registration.resolved

end CocoHarness.Settings
