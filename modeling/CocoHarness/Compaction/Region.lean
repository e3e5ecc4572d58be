/-
# CocoHarness.Compaction.Region — which span of the surface to compact.

The selector walks the priced surface from its tail until the budget to retain is reached, then moves the cut towards
the head until it is balanced; everything before the cut is the range to compact.
-/
import CocoHarness.Lib.ArraySplice
import CocoHarness.Compaction.ToolPairing

namespace CocoHarness.Compaction

open Lib SessionLog

/-! ## Pricing -/

structure TokenSurfaceNode where
  seq : Int
  tokens : Nat
  deriving DecidableEq

def totalTokens (nodes : List TokenSurfaceNode) : Nat := (nodes.map (·.tokens)).sum

/-! ## Selecting -/

structure SurfaceSpan where
  start : Int
  stop : Int
  deriving DecidableEq

structure SurfaceSelection where
  start : Int
  stop : Int
  startIdx : Nat
  endIdx : Nat
  shadowedSeqs : List Int
  deriving DecidableEq

/-- The walk from the tail over the first `index` nodes: where the nodes to keep begin. -/
def keepFrom (pricedNodes : List TokenSurfaceNode) (retainTokens : JsNumber) : Nat → Nat → Nat
  | 0, _ => 0
  | index + 1, accumulated =>
    let accumulated := accumulated + (pricedNodes[index]?.map (·.tokens)).getD 0
    if retainTokens.leNat accumulated then index
    else keepFrom pricedNodes retainTokens index accumulated

namespace PairedSession

def balancedCut (p : PairedSession) (surfaceNodes : List Int) : Nat → PairedSession × Except JsError Nat
  | 0 => (p, .ok 0)
  | index + 1 =>
    match surfaceNodes[index + 1]? with
    | none => (p, .error (.error "tool-pairing balance: surface seq undefined not found"))
    | some seq =>
      match p.toolPairingBalanced seq .before with
      | (p, .error e) => (p, .error e)
      | (p, .ok true) => (p, .ok (index + 1))
      | (p, .ok false) => p.balancedCut surfaceNodes index

def surfaceNodes (p : PairedSession) : PairedSession × Except JsError (List Int) :=
  let (session, surface) := p.session.surface
  ({ p with session }, surface.map Prod.fst)

/-- The next head-anchored range to compact, which retains a priced tail and splits no pair. -/
def selectCompactableRange (p : PairedSession) (pricedNodes : List TokenSurfaceNode)
    (retainTokens : JsNumber) : PairedSession × Except JsError (Option SurfaceSpan) :=
  if pricedNodes = [] then (p, .ok none)
  else
    match p.surfaceNodes with
    | (p, .error e) => (p, .error e)
    | (p, .ok surfaceNodes) =>
      if surfaceNodes ≠ pricedNodes.map (·.seq) then
        (p, .error (.error "compaction: token-meter surface does not match the current session surface"))
      else
        match p.balancedCut surfaceNodes (keepFrom pricedNodes retainTokens pricedNodes.length 0) with
        | (p, .error e) => (p, .error e)
        | (p, .ok 0) => (p, .ok none)
        | (p, .ok (last + 1)) =>
          (p, .ok do
            let start ← surfaceNodes[0]?
            let stop ← surfaceNodes[last]?
            return { start, stop })

/-! ## Validating -/

/-- Locate and validate one requested span before asynchronous work begins. -/
def validateSurfaceRegion (p : PairedSession) (start stop : Int) : PairedSession × Except JsError SurfaceSelection :=
  match p.surfaceNodes with
  | (p, .error e) => (p, .error e)
  | (p, .ok nodes) =>
    match nodes.idxOf? start, nodes.idxOf? stop with
    | none, _ => (p, .error (.error s!"compactRegion: start seq {start} not found in surface"))
    | _, none => (p, .error (.error s!"compactRegion: end seq {stop} not found in surface"))
    | some startIdx, some endIdx =>
      if startIdx > endIdx then
        (p, .error (.error (s!"compactRegion: start seq {start} (position {startIdx}) is after "
          ++ s!"end seq {stop} (position {endIdx}) on the surface")))
      else
        match p.toolPairingBalanced start .before with
        | (p, .error e) => (p, .error e)
        | (p, .ok false) =>
          (p, .error (.error (s!"compactRegion: start seq {start} is not a balanced boundary "
            ++ "(would split a step's tool-call/result pair)")))
        | (p, .ok true) =>
          match p.toolPairingBalanced stop .after with
          | (p, .error e) => (p, .error e)
          | (p, .ok false) =>
            (p, .error (.error (s!"compactRegion: end seq {stop} is not a balanced boundary "
              ++ "(would split a step, or the step is still open)")))
          | (p, .ok true) =>
            (p, .ok { start, stop, startIdx, endIdx, shadowedSeqs := (nodes.take (endIdx + 1)).drop startIdx })

end PairedSession

end CocoHarness.Compaction
