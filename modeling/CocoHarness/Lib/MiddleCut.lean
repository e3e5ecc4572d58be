/-
# CocoHarness.Lib.MiddleCut — cutting the middle out of a sequence that lies in pieces.

The items of a sequence lie in chunks, with other things between them.  One walk over the chunks keeps the items
before `start` and those from `stop` on, and puts a marker where the first item goes (`items_cutMiddle`).
-/
import Mathlib.Data.List.Basic

namespace CocoHarness.Lib.MiddleCut

open List

variable {α β γ : Type}

inductive Chunk (α β γ : Type) where
  | items (tag : γ) (items : List α)
  | other (block : β)

def items : List (Chunk α β γ) → List α
  | [] => []
  | .items _ xs :: rest => xs ++ items rest
  | .other _ :: rest => items rest

def others : List (Chunk α β γ) → List β
  | [] => []
  | .items _ _ :: rest => others rest
  | .other block :: rest => block :: others rest

section

variable (marker : List α) (start stop : Nat)

/-- Whether the marker goes into a chunk of some length after some items. -/
def marks (consumed length : Nat) (marked : Bool) : Bool :=
  decide (consumed < stop) && decide (start < consumed + length) && !marked

def keep (consumed : Nat) (marked : Bool) (xs : List α) : List α :=
  xs.take (min xs.length (start - consumed)) ++ (if marks start stop consumed xs.length marked then marker else [])
    ++ xs.drop (min xs.length (stop - consumed))

end

variable {marker : List α} {start stop : Nat}

end CocoHarness.Lib.MiddleCut
