/-
# CocoHarness.SessionLog.Event — the session event and its JSON form.

An event is the fixed envelope of the log (`type`, `seq`, `time`, the optional surface fields and the
`ignorable` marker) around data that is any JSON value: the code reads core payloads through their
static types and treats every other payload as opaque.  `toJson` is the object `JSON.stringify` sees.
Data that differs only in the order its fields were added reads the same, so two events are the same
event when everything agrees up to that order (`Same`).
-/
import CocoHarness.Lib.SafeInteger
import CocoHarness.SessionLog.JsonValue

namespace CocoHarness.SessionLog

open Lib Lib.SafeInteger

/-- The value as a safe integer: `Number.isSafeInteger` on an unknown value. -/
def safeInt? (v : Json) : Option Int := v.int?.filter fun n => decide (IsSafe n)

structure SessionEvent where
  type : String
  seq : Int
  time : Int
  data : Json
  sourceEventSeqs : Option Json := none
  surfaceOp : Option Json := none
  ignorable : Bool := false
  deriving DecidableEq

namespace SessionEvent

def intField (n : Int) : Json := .num (.int n)

theorem safeInt?_eq_some_iff {v : Json} {n : Int} : safeInt? v = some n ↔ v = intField n ∧ IsSafe n := by
  rw [safeInt?, Option.filter_eq_some_iff]
  cases v with
  | num m => cases m <;> simp [Json.int?, intField]
  | null | bool _ | str _ | arr _ | obj _ => simp [Json.int?, intField]

def intArray (xs : List Int) : Json := .arr (xs.map intField)

variable (e : SessionEvent)

/-- The own fields of the event object, in the order `Session.append` defines them. -/
def fields : List (String × Json) :=
  [("type", .str e.type), ("seq", intField e.seq), ("time", intField e.time), ("data", e.data)]
    ++ (match e.sourceEventSeqs with | some s => [("sourceEventSeqs", s)] | none => [])
    ++ (match e.surfaceOp with | some s => [("surfaceOp", s)] | none => [])
    ++ (if e.ignorable then [("ignorable", .bool true)] else [])

def toJson : Json := .obj e.fields

structure WF (e : SessionEvent) : Prop where
  data : e.data.WF
  sourceEventSeqs : ∀ v, e.sourceEventSeqs = some v → v.WF
  surfaceOp : ∀ v, e.surfaceOp = some v → v.WF

theorem toJson_wf {e : SessionEvent} (h : e.WF) : e.toJson.WF := by
  obtain ⟨type, seq, time, data, sources, op, ignorable⟩ := e
  rw [toJson, Json.wf_obj]
  refine ⟨?_, ?_⟩
  · cases sources <;> cases op <;> cases ignorable <;> simp [fields, Json.keys]
  · intro f hf
    simp only [fields, List.mem_append, List.mem_cons, List.not_mem_nil, or_false] at hf
    rcases hf with ((((rfl | rfl | rfl | rfl) | hf) | hf) | hf)
    · trivial
    · trivial
    · trivial
    · exact h.data
    · cases sources with
      | none => simp at hf
      | some v => rw [List.mem_singleton] at hf; subst hf; exact h.sourceEventSeqs v rfl
    · cases op with
      | none => simp at hf
      | some v => rw [List.mem_singleton] at hf; subst hf; exact h.surfaceOp v rfl
    · cases ignorable with
      | false => simp at hf
      | true => simp only [if_true, List.mem_singleton] at hf; subst hf; trivial

@[simp] theorem toJson_type : e.toJson.get? "type" = some (.str e.type) := rfl

@[simp] theorem toJson_seq : e.toJson.get? "seq" = some (intField e.seq) := rfl

@[simp] theorem toJson_time : e.toJson.get? "time" = some (intField e.time) := rfl

@[simp] theorem toJson_data : e.toJson.get? "data" = some e.data := rfl

@[simp] theorem toJson_sourceEventSeqs :
    e.toJson.get? "sourceEventSeqs" = e.sourceEventSeqs := by
  obtain ⟨type, seq, time, data, sources, op, ignorable⟩ := e
  cases sources <;> cases op <;> cases ignorable <;> rfl

@[simp] theorem toJson_surfaceOp :
    e.toJson.get? "surfaceOp" = e.surfaceOp := by
  obtain ⟨type, seq, time, data, sources, op, ignorable⟩ := e
  cases sources <;> cases op <;> cases ignorable <;> rfl

@[simp] theorem toJson_ignorable :
    e.toJson.get? "ignorable" = if e.ignorable then some (.bool true) else none := by
  obtain ⟨type, seq, time, data, sources, op, ignorable⟩ := e
  cases sources <;> cases op <;> cases ignorable <;> rfl

/-- The same event: equal envelope, and data equal up to field order. -/
structure Same (a b : SessionEvent) : Prop where
  type : a.type = b.type
  seq : a.seq = b.seq
  time : a.time = b.time
  data : a.data.Same b.data
  sourceEventSeqs : a.sourceEventSeqs = b.sourceEventSeqs
  surfaceOp : a.surfaceOp = b.surfaceOp
  ignorable : a.ignorable = b.ignorable

theorem Same.refl : e.Same e := ⟨rfl, rfl, rfl, .refl _, rfl, rfl, rfl⟩

end SessionEvent

end CocoHarness.SessionLog
