/-
# CocoHarness.Client.SessionWindow — the event window that a client session holds of the host's log.

A session holds one window of the log.  History pages come by request, and show the log as of some moment between the
request and the arrival of the answer; live events come over the mux stream, in log order from the baseline of a
subscription on.  Live events that arrive while a page is awaited wait in a buffer, and are stitched to the page when
it lands; a live event beyond the window's end starts a repair, which pulls the tail page again.

The log is the host's: it only grows, and the event at index `n` has sequence number `n`.
-/
import CocoHarness.Lib.Machine
import Mathlib.Data.List.Infix

namespace CocoHarness.Client

variable {ε : Type}

/-! ## The host -/

structure LogEvent (ε : Type) where
  seq : Nat
  body : ε
  deriving DecidableEq

def hostEvents (log : List ε) : List (LogEvent ε) := log.zipIdx.map fun (body, seq) => ⟨seq, body⟩

/-- A page shows the log as of its first `shown` events, from `cut` on, the start of a message group. -/
inductive Answer where
  | page (shown cut : Nat)
  | refused
  | thrown
  deriving DecidableEq

/-- A page of the events before `before`, as of the first `shown` events. -/
def pageEvents (log : List ε) (before shown cut : Nat) : List (LogEvent ε) :=
  ((hostEvents log).take (min before shown)).drop cut

def pageHasMore (cut : Nat) : Bool := decide (0 < cut)

/-! ## The session -/

inductive OpenState where
  | cold
  | loading
  | «open»
  | error
  deriving DecidableEq

/-- The part of a client session that keeps its window; `opening` while it has an `openPromise`. -/
structure ClientSession (ε : Type) where
  events : List (LogEvent ε) := []
  baseSeq : Nat := 0
  hasMore : Bool := false
  openState : OpenState := .cold
  opening : Bool := false
  openGeneration : Nat := 0
  loadingOlder : Bool := false
  liveBuffer : List (LogEvent ε) := []
  stitching : Bool := false
  subscribedLastSeq : Option Int := none
  deriving DecidableEq

namespace ClientSession

variable (c : ClientSession ε)

def windowTailSeq : Option Nat := c.events.getLast?.map LogEvent.seq

/-- Seq-guarded append shared by stitching and the open-state live path. -/
def appendLive (e : LogEvent ε) : ClientSession ε :=
  match c.windowTailSeq with
  | some tailSeq => if e.seq ≤ tailSeq then c else { c with events := c.events ++ [e] }
  | none => { c with events := c.events ++ [e] }

def installWindow (page : List (LogEvent ε)) (hasMore : Bool) : ClientSession ε :=
  c.liveBuffer.foldl appendLive
    { c with events := page, baseSeq := (page.head?.map LogEvent.seq).getD 0, hasMore, liveBuffer := [] }

end ClientSession

/-! ## Requests -/

/-- The first or the second page of an open, a gap repair, or an older page. -/
inductive RequestKind where
  | firstPage (generation : Nat)
  | secondPage (generation : Nat)
  | repair (generation : Nat)
  | older (beforeSeq : Nat)
  deriving DecidableEq

/-- A request in flight; its answer shows at least the events the log had when it was made. -/
structure Request where
  kind : RequestKind
  since : Nat
  deriving DecidableEq

/-- The host's log, a session of it, the requests in flight, and the next live event to be delivered. -/
structure SessionWindow (ε : Type) where
  host : List ε := []
  client : ClientSession ε := {}
  requests : List Request := []
  next : Option Nat := none

inductive Action (ε : Type) where
  | grow (body : ε)
  /-- The baseline of a subscription made when the log had `length` events. -/
  | subscribed (length : Nat)
  /-- The next live event. -/
  | event
  | «open»
  | loadOlder
  | resync
  | respond (i : Nat) (answer : Answer)

namespace SessionWindow

open ClientSession

variable (s : SessionWindow ε)

def history (kind : RequestKind) : SessionWindow ε :=
  { s with requests := s.requests ++ [⟨kind, s.host.length⟩] }

/-- Pull the tail page, unless the window is open or about to be. -/
def «open» : SessionWindow ε :=
  if s.client.openState = .«open» ∨ s.client.opening then s
  else
    history { s with client := { s.client with openState := .loading, opening := true } }
      (.firstPage s.client.openGeneration)

def resync : SessionWindow ε :=
  if s.client.openState = .cold then s
  else
    «open» { s with client := { s.client with
      openGeneration := s.client.openGeneration + 1, opening := false, openState := .cold, events := []
      baseSeq := 0, subscribedLastSeq := none, liveBuffer := [] } }

def loadOlder : SessionWindow ε :=
  if s.client.openState ≠ .«open» ∨ ¬ s.client.hasMore ∨ s.client.loadingOlder then s
  else history { s with client := { s.client with loadingOlder := true } } (.older s.client.baseSeq)

/-- Land a live event: buffered, dropped, appended, or, past a gap, buffered with a repair. -/
def acceptLiveEvent (e : LogEvent ε) : SessionWindow ε :=
  let buffered : ClientSession ε := { s.client with liveBuffer := s.client.liveBuffer ++ [e] }
  if s.client.openState = .loading ∨ s.client.stitching then { s with client := buffered }
  else if s.client.openState ≠ .«open» then s
  else if s.client.windowTailSeq.any fun tailSeq => decide (tailSeq + 1 < e.seq) then
    history { s with client := { buffered with stitching := true } } (.repair s.client.openGeneration)
  else { s with client := s.client.appendLive e }

variable (c : ClientSession ε)

def opened : ClientSession ε := { c with openState := .«open», opening := false }

def failed : ClientSession ε := { c with openState := .error, opening := false }

def behind : Bool :=
  c.subscribedLastSeq.any fun last => c.windowTailSeq.any fun tailSeq => decide ((tailSeq : Int) < last)

def firstPage (generation : Nat) : Answer → SessionWindow ε
  | .page shown cut =>
    let client := s.client.installWindow (pageEvents s.host shown shown cut) (pageHasMore cut)
    if behind client then history { s with client } (.secondPage generation)
    else { s with client := opened client }
  | .refused | .thrown => { s with client := failed s.client }

def secondPage : Answer → SessionWindow ε
  | .page shown cut =>
    { s with client := opened (s.client.installWindow (pageEvents s.host shown shown cut) (pageHasMore cut)) }
  | .refused => { s with client := opened s.client }
  | .thrown => { s with client := failed s.client }

def repaired (generation : Nat) : Answer → SessionWindow ε
  | .page shown cut =>
    let client :=
      if generation = s.client.openGeneration ∧ s.client.openState = .«open» then
        s.client.installWindow (pageEvents s.host shown shown cut) (pageHasMore cut)
      else s.client
    { s with client := { client with stitching := false } }
  | .refused | .thrown => { s with client := { s.client with stitching := false } }

/-- The page before `beforeSeq`; one that does not reach the window is dropped, and paging with it. -/
def older (beforeSeq : Nat) : Answer → SessionWindow ε
  | .page shown cut =>
    let page := pageEvents s.host beforeSeq shown cut
    let client :=
      match page.getLast? with
      | none => { s.client with hasMore := pageHasMore cut }
      | some tail =>
        if tail.seq + 1 ≠ s.client.baseSeq then { s.client with hasMore := false }
        else
          { s.client with
            events := page ++ s.client.events
            baseSeq := (page.head?.map LogEvent.seq).getD s.client.baseSeq
            hasMore := pageHasMore cut }
    { s with client := { client with loadingOlder := false } }
  | .refused | .thrown => { s with client := { s.client with loadingOlder := false } }

/-- What an answer does; one to an open of an earlier generation does nothing. -/
def answered (answer : Answer) : RequestKind → SessionWindow ε
  | .firstPage generation => if generation ≠ s.client.openGeneration then s else s.firstPage generation answer
  | .secondPage generation => if generation ≠ s.client.openGeneration then s else s.secondPage answer
  | .repair generation => s.repaired generation answer
  | .older beforeSeq => s.older beforeSeq answer

def RequestKind.before (shown : Nat) : RequestKind → Nat
  | .older beforeSeq => min beforeSeq shown
  | _ => shown

/-- The answer is as of a moment since the request, from a cut that leaves a page where there is one. -/
def Answerable (request : Request) : Answer → Prop
  | .page shown cut => request.since ≤ shown ∧ shown ≤ s.host.length
      ∧ (cut < RequestKind.before shown request.kind ∨ RequestKind.before shown request.kind = 0 ∧ cut = 0)
  | _ => True

instance (s : SessionWindow ε) (request : Request) (answer : Answer) : Decidable (s.Answerable request answer) :=
  match answer with
  | .page _ _ => inferInstanceAs (Decidable (_ ∧ _ ∧ (_ ∨ _ ∧ _)))
  | .refused => inferInstanceAs (Decidable True)
  | .thrown => inferInstanceAs (Decidable True)

def step : Action ε → Option (SessionWindow ε)
  | .grow body => some { s with host := s.host ++ [body] }
  | .subscribed length =>
    if s.next.getD 0 ≤ length ∧ length ≤ s.host.length then
      some { s with next := some length
                    client := { s.client with subscribedLastSeq := some ((length : Int) - 1) } }
    else none
  | .event =>
    s.next.bind fun seq => s.host[seq]?.map fun body => acceptLiveEvent { s with next := some (seq + 1) } ⟨seq, body⟩
  | .«open» => some s.«open»
  | .loadOlder => some s.loadOlder
  | .resync => some s.resync
  | .respond i answer =>
    s.requests[i]?.bind fun request =>
      if s.Answerable request answer then
        some (answered { s with requests := s.requests.eraseIdx i } answer request.kind)
      else none

inductive Reachable : SessionWindow ε → Prop
  | start : Reachable {}
  | step {s s' : SessionWindow ε} (a : Action ε) : Reachable s → s.step a = some s' → Reachable s'

end SessionWindow

end CocoHarness.Client
