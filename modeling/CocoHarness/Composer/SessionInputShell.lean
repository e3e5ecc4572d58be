/-
# CocoHarness.Composer.SessionInputShell — the shell around the machine, and the hub's default sink.

The shell feeds events to the machine and executes its effects in order, then publishes the state.  What it starts
outside answers later: the adjudication of a '/' line, the serialization of a draft's references, the submission of a
claim, the prompt.

Three things are recorded beside the source's own state: every text that left the composer, with what it stands for
(`outlets`), every hand-over of a draft (`handed`), and the text entered after an Enter that the completion of its
hand-over removed (`lost`).
-/
import CocoHarness.Composer.InputMachine
import CocoHarness.Lib.Machine

namespace CocoHarness.Composer

open Lib Lib.MarkedText
open Lib.Utf16 (Unit16)

/-! ## State -/

structure InputNotice where
  level : NoticeLevel
  text : Text
  seq : Nat
  deriving DecidableEq

/-- A serialization under way: the draft, the occurrences it splices forms over, and whether a pipeline was mounted;
`entry` is its Enter. -/
structure Serialization where
  draft : Text
  imageIds : List Nat
  mode : InputSubmitMode
  occurrences : List Occurrence
  mounted : Bool
  entry : Entry
  draftRev : Nat
  deriving DecidableEq

structure Adjudication where
  attempt : SubmitAttempt
  line : Text
  deriving DecidableEq

structure Submission where
  attempt : SubmitAttempt
  claim : CommandClaim
  args : Text
  deriving DecidableEq

structure Send where
  text : Text
  imageIds : List Nat
  mode : InputSubmitMode
  entry : Entry
  deriving DecidableEq

inductive Outlet where
  /-- To the persistence mirror, with the draft and the table published. -/
  | mirror (text draft : Text) (occurrences : List Occurrence)
  /-- To the default sink, with its Enter and the forms used. -/
  | sink (text : Text) (entry : Entry) (parts : List (String × String × Text))
  /-- To a claim's submit. -/
  | args (text : Text) (entry : Entry) (token : Text)
  deriving DecidableEq

/-- The content of a draft handed over, by the Enter it was handed over for. -/
structure HandOver where
  entry : Entry
  failed : Bool := false
  deriving DecidableEq

structure SessionInputShell where
  core : InputMachine := {}
  noticeSeq : Nat := 0
  notices : Option InputNotice := none
  lastDraft : Text := []
  imageIds : List Nat := []
  disposed : Bool := false
  /-- Whether a draft persistence mirror is bound. -/
  mirror : Bool := false
  serializations : List Serialization := []
  adjudications : List Adjudication := []
  submissions : List Submission := []
  sends : List Send := []
  outlets : List Outlet := []
  handed : List HandOver := []
  lost : List (Unit16 × Mark) := []
  deriving DecidableEq

def enteredAfter (enter : Nat) (m : InputMachine) : List (Unit16 × Mark) :=
  (m.draft.zip m.marks).filter fun c =>
    match c.2 with
    | .typed event => decide (enter < event)
    | .restored _ => false

namespace SessionInputShell

/-! ## Publishing and the default sink -/

variable (s : SessionInputShell)

def publish : SessionInputShell :=
  if s.core.draft = s.lastDraft then s
  else
    { s with
      lastDraft := s.core.draft
      outlets := s.outlets ++
        if s.mirror then [.mirror s.core.draft s.core.draft s.core.occurrences] else [] }

/-- The hand-over of this Enter is complete: what was entered after it and is gone was lost. -/
def completed (entry : Entry) (before : InputMachine) : SessionInputShell :=
  { s with
    lost := s.lost ++ (enteredAfter entry.enter before).filter (· ∉ enteredAfter entry.enter s.core) }

def failHandOver (enter : Nat) : SessionInputShell :=
  { s with handed := s.handed.map fun h => if h.entry.enter = enter then { h with failed := true } else h }

/-- The submission that this Enter was handed over to is answered. -/
def answerHandOver (enter : Nat) : Except Text SubmitOutcome → SessionInputShell
  | .ok ⟨.success, _⟩ => s
  | .ok ⟨.error, _⟩ | .error _ => s.failHandOver enter

def commitSend (imageIds : List Nat) : SessionInputShell :=
  publish { s with
    imageIds := s.imageIds.filter (· ∉ imageIds)
    core := (s.core.dispatch .sendCommitted).1 }

def sink (text : Text) (imageIds : List Nat) (mode : InputSubmitMode)
    (entry : Entry) (parts : List (String × String × Text)) : SessionInputShell :=
  let s := { s with outlets := s.outlets ++ [.sink text entry parts] }
  if text = [] ∧ imageIds = [] then s
  else
    let before := s.core
    let s := commitSend { s with handed := s.handed ++ [⟨entry, false⟩] } imageIds
    let s := s.completed entry before
    { s with sends := s.sends ++ [⟨text, imageIds, mode, entry⟩] }

/-- Prompt serialization before the sink; chip-free drafts skip the detour. -/
def sinkSerialized (draft : Text) (mode : InputSubmitMode) (entry : Entry) (mounted : Bool) : SessionInputShell :=
  if s.core.occurrences.isEmpty then s.sink (trim draft) s.imageIds mode entry []
  else
    { s with serializations := s.serializations ++ [{
        draft, imageIds := s.imageIds, mode, occurrences := s.core.occurrences, mounted, entry
        draftRev := s.core.draftRev }] }

/-! ## Effects -/

def notify (level : NoticeLevel) (text : Text) : SessionInputShell :=
  { s with
    noticeSeq := s.noticeSeq + 1
    notices := some { level, text, seq := s.noticeSeq + 1 } }

variable (mounted : Bool)

def executeOther (s : SessionInputShell) : InputEffect → SessionInputShell
  | .notice level text => s.notify level text
  | .beginSubmit attempt claim args =>
    { s with
      submissions := s.submissions ++ [{ attempt, claim, args }]
      handed := s.handed ++ [⟨attempt.entry, false⟩]
      outlets := s.outlets ++ [.args args attempt.entry claim.token] }
  | .defaultSink draft mode entry => s.sinkSerialized draft mode entry mounted
  | .adjudicate _ _ => s

/-- Adopt the machine's next state and execute its effects, in order. -/
def runAnswered (s : SessionInputShell) (next : InputMachine × List InputEffect) : SessionInputShell :=
  publish (next.2.foldl (executeOther mounted) { s with core := next.1 })

/-- Execute an effect; without a pipeline a '/' line is an ordinary message. -/
def execute (s : SessionInputShell) : InputEffect → SessionInputShell
  | .adjudicate attempt draft =>
    if mounted then
      { s with adjudications := s.adjudications ++ [{ attempt, line := trim draft }] }
    else s.runAnswered mounted (s.core.dispatch (.adjudicated attempt .miss))
  | effect => s.executeOther mounted effect

/-- Adopt the machine's next state and execute its effects, in order. -/
def run (s : SessionInputShell) (next : InputMachine × List InputEffect) : SessionInputShell :=
  publish (next.2.foldl (execute mounted) { s with core := next.1 })

/-! ## The shell's operations -/

/-- Feed an Enter; a draft of images only goes to the sink by itself. -/
def submit (mode : InputSubmitMode) (mounted : Bool) : SessionInputShell :=
  if trim s.core.draft = [] ∧ s.imageIds ≠ [] then
    if s.core.phase = .plain then s.sink [] s.imageIds mode s.core.entryNow [] else s
  else s.run mounted (s.core.dispatch (.enter mode))

def addImages (ids : List Nat) : SessionInputShell :=
  if s.core.phase = .adjudicating ∨ s.core.phase = .submitting then s
  else if ids = [] then s
  else publish { s with imageIds := s.imageIds ++ ids }

def removeImage (id : Nat) : SessionInputShell :=
  publish { s with imageIds := s.imageIds.filter (· ≠ id) }

def pruneImages (available : List Nat) : SessionInputShell :=
  publish { s with imageIds := s.imageIds.filter (· ∈ available) }

def restoreImages (ids : List Nat) : SessionInputShell :=
  publish { s with imageIds := ids.filter (· ∉ s.imageIds) ++ s.imageIds }

def dead (attempt : SubmitAttempt) : Bool :=
  s.disposed || decide (attempt.seq ∈ s.core.aborted)

/-- Every reference is serialized: the forms are spliced over their placeholders. -/
def onSerialized (p : Serialization) (forms : List Text) : SessionInputShell :=
  if s.disposed then s
  else
    let out := substitute p.draft 0 ((p.occurrences.map (·.offset)).zip forms)
    s.sink (trim out) p.imageIds p.mode p.entry
      ((p.occurrences.zip forms).map fun c => (c.1.source, c.1.ref, c.2))

/-- The claim's transaction is answered, by an outcome or by an error's message. -/
def onSettled (p : Submission) (result : Except Text SubmitOutcome) : SessionInputShell :=
  let s := s.answerHandOver p.attempt.entry.enter result
  if s.dead p.attempt then s
  else
    let before := s.core
    match result with
    | .ok outcome =>
      let ok := decide (outcome.kind = .success)
      let s := s.run true (s.core.dispatch (.submitSettled p.attempt ok (some outcome) none))
      if ok then s.completed p.attempt.entry before else s
    | .error message => s.run true (s.core.dispatch (.submitSettled p.attempt false none (some message)))

/-- The prompt failed: its draft comes back only while nothing was typed since. -/
def onSendFailed (p : Send) (time : Nat) : SessionInputShell :=
  let s := s.failHandOver p.entry.enter
  if s.disposed then s
  else
    let s := s.restoreImages p.imageIds
    if s.core.draft = [] then
      let next := (s.core.dispatch (.draftChanged p.text none time)).1
      publish { s with core := { next with marks := List.replicate p.text.length (.restored p.entry.enter) } }
    else s

end SessionInputShell

/-! ## The system -/

def InputEvent.isEdit : InputEvent → Bool
  | draftChanged .. | beginCommand .. | insertRef .. | consumeToken .. | setInvalid .. | undo | redo
  | pasteBegin .. | pasteUpgrade .. | invalidatePaste => true
  | enter .. | adjudicated .. | adjudicationFailed .. | submitSettled .. | sendCommitted | release => false

inductive ShellAction where
  /-- The user, or a source on the user's behalf. -/
  | edit (ev : InputEvent)
  | submit (mode : InputSubmitMode) (mounted : Bool)
  | addImages (ids : List Nat)
  | removeImage (id : Nat)
  | pruneImages (available : List Nat)
  | bindMirror
  | unbindMirror
  | dispose
  /-- Answers from outside, to the request at this place of its list. -/
  | serialized (i : Nat) (forms : List Text)
  | serializeFailed (i : Nat) (message : Text)
  | adjudicated (i : Nat) (outcome : PickOutcome) (mounted : Bool)
  | adjudicationFailed (i : Nat) (message : Text)
  | settled (i : Nat) (result : Except Text SubmitOutcome)
  | sent (i : Nat)
  | sendFailed (i : Nat) (time : Nat)

open SessionInputShell in
def SessionInputShell.step (s : SessionInputShell) : ShellAction → Option SessionInputShell
  | .edit ev => if ev.isEdit && !s.disposed then some (s.run true (s.core.dispatch ev)) else none
  | .submit mode mounted => if s.disposed then none else some (s.submit mode mounted)
  | .addImages ids => if s.disposed then none else some (s.addImages ids)
  | .removeImage id => if s.disposed then none else some (s.removeImage id)
  | .pruneImages available => if s.disposed then none else some (s.pruneImages available)
  | .bindMirror => some { s with mirror := true }
  | .unbindMirror => some { s with mirror := false }
  | .dispose => if s.disposed then none else some (run true { s with disposed := true } (s.core.dispatch .release))
  | .serialized i forms =>
    match s.serializations[i]? with
    | none => none
    | some p =>
      if p.mounted && forms.length == p.occurrences.length then
        some (onSerialized { s with serializations := s.serializations.eraseIdx i } p forms)
      else none
  | .serializeFailed i message =>
    if i < s.serializations.length then
      let s := { s with serializations := s.serializations.eraseIdx i }
      some (if s.disposed then s else s.notify .error message)
    else none
  | .adjudicated i outcome mounted =>
    match s.adjudications[i]? with
    | none => none
    | some p =>
      let s := { s with adjudications := s.adjudications.eraseIdx i }
      some (if s.dead p.attempt then s
        else s.run mounted (s.core.dispatch (.adjudicated p.attempt outcome)))
  | .adjudicationFailed i message =>
    match s.adjudications[i]? with
    | none => none
    | some p =>
      let s := { s with adjudications := s.adjudications.eraseIdx i }
      some (if s.dead p.attempt then s
        else s.run true (s.core.dispatch (.adjudicationFailed p.attempt message)))
  | .settled i result =>
    match s.submissions[i]? with
    | none => none
    | some p => some (onSettled { s with submissions := s.submissions.eraseIdx i } p result)
  | .sent i => if i < s.sends.length then some { s with sends := s.sends.eraseIdx i } else none
  | .sendFailed i time =>
    match s.sends[i]? with
    | none => none
    | some p => some (onSendFailed { s with sends := s.sends.eraseIdx i } p time)

end CocoHarness.Composer
