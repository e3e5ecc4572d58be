/-
# CocoHarness.Client.OrderedBaseline — a baseline is merged without moving a row that is shown.

The rows that were established keep their order.  A row that is new goes before the nearest row behind it in the
baseline that was established; as the rows are inserted one at a time, the new rows of one gap stand in the order
of the baseline.
-/
import Mathlib.Data.List.Perm.Basic
import Mathlib.Data.List.Nodup

namespace CocoHarness.Client

open List

variable {T K : Type} [DecidableEq K] (keyOf : T → K)

/-! ## The merge -/

variable {keyOf} {known : T → Bool} {rows merged baseline current following : List T} {mergedKeys : List K} {value row : T}

/-- What the loop finds: the rows to come are shown if and only if they are known. -/
structure Pending (keyOf : T → K) (known : T → Bool) (merged : List T) (mergedKeys : List K) (todo : List T) : Prop where
  shown : ∀ row ∈ todo, known row = true ↔ keyOf row ∈ merged.map keyOf
  keys : ∀ row ∈ todo, known row = true ↔ keyOf row ∈ mergedKeys
  nodup : (todo.map keyOf).Nodup

omit [DecidableEq K] in
theorem Pending.skip (h : Pending keyOf known merged mergedKeys (value :: following)) :
    Pending keyOf known merged mergedKeys following :=
  ⟨fun row hrow => h.shown row (mem_cons_of_mem _ hrow), fun row hrow => h.keys row (mem_cons_of_mem _ hrow),
    (nodup_cons.mp h.nodup).2⟩

omit [DecidableEq K] in
theorem Pending.insert (h : Pending keyOf known merged mergedKeys (value :: following)) {merged' : List T}
    (hperm : merged'.Perm (value :: merged)) : Pending keyOf known merged' (keyOf value :: mergedKeys) following := by
  obtain ⟨hvalue, hrest⟩ := nodup_cons.mp h.nodup
  have hne : ∀ row ∈ following, keyOf row ≠ keyOf value := fun row hrow hsame =>
    hvalue (by rw [← hsame]; exact mem_map_of_mem hrow)
  refine ⟨fun row hrow => ?_, fun row hrow => ?_, hrest⟩
  · rw [h.skip.shown row hrow, (hperm.map keyOf).mem_iff, map_cons, mem_cons, or_iff_right (hne row hrow)]
  · rw [h.skip.keys row hrow, mem_cons, or_iff_right (hne row hrow)]

end CocoHarness.Client
