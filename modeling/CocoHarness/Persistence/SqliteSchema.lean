/-
# CocoHarness.Persistence.SqliteSchema — the event rows of the SQLite backend.

`scanRows` gives the rows of a session, ordered by seq, the same crash-tail reading as the line scanner: it finds the
last completed turn first, and then keeps the contiguous prefix, rejecting a hole that a completed turn follows.
-/
import CocoHarness.SessionLog.Event
import CocoHarness.Lib.Fallible

namespace CocoHarness.Persistence

open Lib SessionLog

structure EventRow where
  seq : Int
  type : String
  time : Int
  data : String
  sourceEventSeqs : Option String
  surfaceOp : Option String
  /-- `1` iff the event carries the `ignorable: true` marker. -/
  ignorable : Option Int
  deriving DecidableEq

def parseColumn (text : String) : Option Json := JsonText.parse text.toList

/-- `JSON.parse` of a nullable text column: the inner value is absent for `NULL`. -/
def parseNullable : Option String → Option (Option Json)
  | none => some none
  | some text => (parseColumn text).map some

/-- Reconstruct an event from its row; `none` when a JSON column fails to parse. -/
def rowToEvent (row : EventRow) : Option SessionEvent := do
  let sourceEventSeqs ← parseNullable row.sourceEventSeqs
  let surfaceOp ← parseNullable row.surfaceOp
  let data ← parseColumn row.data
  return { type := row.type, seq := row.seq, time := row.time, data, sourceEventSeqs, surfaceOp,
           ignorable := row.ignorable = some 1 }

def isTurnEndRow (row : EventRow) : Bool := (rowToEvent row).isSome && row.type = "turn/end"

/-- The last index below `i` that is a valid `turn/end`, `-1` without one. -/
def lastTurnEnd (rows : List EventRow) : Nat → Int
  | 0 => -1
  | i + 1 => if rows[i]?.any isTurnEndRow then i else lastTurnEnd rows i

/-- The loop over the rows from index `i` on: the preserved events. -/
def preserveLoop (base : Int) (lastTurnEnd : Int) : Nat → List EventRow → Except JsError (List SessionEvent)
  | _, [] => .ok []
  | i, row :: rest =>
    match rowToEvent row with
    | none =>
      if i ≤ lastTurnEnd then
        .error (.error s!"corrupt session log: unparsable committed event at seq {row.seq}")
      else .ok []  -- torn tail fragment after the last turn/end
    | some event =>
      if event.seq ≠ base + i then
        if i ≤ lastTurnEnd then
          .error (.error (s!"corrupt session log: seq gap in committed region "
            ++ s!"(expected {base + i}, got {event.seq})"))
        else .ok []  -- gap after the last turn/end
      else do
        let preserved ← preserveLoop base lastTurnEnd (i + 1) rest
        return event :: preserved

structure RowScan where
  preserved : List SessionEvent
  /-- The seq the physical delete starts at, when a torn tail exists. -/
  tornFrom : Option Int
  deriving DecidableEq

def scanRows (rows : List EventRow) (base : Int) : Except JsError RowScan := do
  let preserved ← preserveLoop base (lastTurnEnd rows rows.length) 0 rows
  return { preserved
           tornFrom := if preserved.length < rows.length then some (base + preserved.length) else none }

def columnText (v : Json) : String := String.ofList (JsonText.text v)

def insertedRow (event : SessionEvent) : EventRow where
  seq := event.seq
  type := event.type
  time := event.time
  data := columnText event.data
  sourceEventSeqs := (event.sourceEventSeqs.filter truthy).map columnText
  surfaceOp := event.surfaceOp.map columnText
  ignorable := if event.ignorable then some 1 else none

/-- `DELETE FROM events WHERE seq >= tornFrom`, run when a torn tail exists. -/
def deleteTorn (rows : List EventRow) : Option Int → List EventRow
  | none => rows
  | some tornFrom => rows.filter (·.seq < tornFrom)

/-! ## Reading a row back -/

theorem parseColumn_columnText {v : Json} (h : v.WF) : parseColumn (columnText v) = some v := by
  rw [parseColumn, columnText, String.toList_ofList, JsonText.parse_text h]

theorem parseNullable_columnText {v : Option Json} (h : ∀ x, v = some x → x.WF) :
    parseNullable (v.map columnText) = some v := by
  cases v with
  | none => rfl
  | some x => simp [parseNullable, parseColumn_columnText (h x rfl)]

/-- **Row round trip.**  An inserted row reads back as its event. -/
theorem rowToEvent_insertedRow {event : SessionEvent} (h : event.WF)
    (hsources : ∀ v, event.sourceEventSeqs = some v → truthy v = true) :
    rowToEvent (insertedRow event) = some event := by
  have hkept : event.sourceEventSeqs.filter truthy = event.sourceEventSeqs := by
    cases hv : event.sourceEventSeqs with
    | none => rfl
    | some v => simp [hsources v hv]
  simp only [rowToEvent, insertedRow, hkept, parseNullable_columnText h.sourceEventSeqs,
    parseNullable_columnText h.surfaceOp, parseColumn_columnText h.data]
  cases hignorable : event.ignorable <;> simp [← hignorable]

/-! ## The preserved prefix -/

theorem rowToEvent_spec {row : EventRow} {event : SessionEvent} (h : rowToEvent row = some event) :
    event.seq = row.seq ∧ event.type = row.type := by
  simp only [rowToEvent, Option.bind_eq_bind, Option.bind_eq_some_iff, pure, Option.some.injEq] at h
  obtain ⟨_, -, _, -, _, -, rfl⟩ := h
  exact ⟨rfl, rfl⟩

theorem lastTurnEnd_lt (rows : List EventRow) (n : Nat) : lastTurnEnd rows n < n := by
  induction n with
  | zero => simp [lastTurnEnd]
  | succ n ih =>
    rw [lastTurnEnd]
    split <;> omega

/-- An index is at or before the last completed turn when a completed turn is at or behind it. -/
theorem le_lastTurnEnd_iff (rows : List EventRow) (i : Nat) {n : Nat} (hi : i ≤ n) (hn : n ≤ rows.length) :
    (i : Int) ≤ lastTurnEnd rows n ↔ ((rows.take n).drop i).any isTurnEndRow = true := by
  induction n with
  | zero =>
    obtain rfl : i = 0 := by omega
    simp [lastTurnEnd]
  | succ n ih =>
    have hlt : n < rows.length := hn
    have htake : rows.take (n + 1) = rows.take n ++ [rows[n]] := by
      rw [List.take_add_one, List.getElem?_eq_getElem hlt]
      rfl
    rw [lastTurnEnd, List.getElem?_eq_getElem hlt, Option.any_some]
    rcases Nat.lt_or_ge n i with hgt | hle
    · obtain rfl : i = n + 1 := by omega
      rw [List.drop_eq_nil_of_le (by simp [hlt])]
      have hbound := lastTurnEnd_lt rows n
      split
      · simp
      · simp only [List.any_nil, Bool.false_eq_true, iff_false]
        push_cast
        omega
    · rw [htake, List.drop_append_of_le_length (by simp; omega), List.any_append]
      split
      · next hend => simp [hend, hle]
      · next hend => simp [hend, ih hle (by omega)]

end CocoHarness.Persistence
