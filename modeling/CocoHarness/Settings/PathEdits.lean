/-
# CocoHarness.Settings.PathEdits — a path edit leaves every other path as it is.

A surface that holds a redacted section names the field it means, and what it does not name keeps its value.
-/
import CocoHarness.Settings.Provider

namespace CocoHarness.Settings

open Lib List

/-! ## Reading at a path -/

def PathOp.path : PathOp → List String
  | set path _ | unset path => path

variable {p path : List String} {key k : String} {value : Json} {fields : Fields}

theorem lookup_cons_if (name : String) (rest : Fields) :
    ((name, value) :: rest).lookup k = if k = name then some value else rest.lookup k := by
  rw [lookup_cons]
  by_cases hk : k = name
  · rw [if_pos hk, beq_iff_eq.mpr hk]
  · rw [if_neg hk, beq_eq_false_iff_ne.mpr hk]

theorem lookup_setField : (setField key value fields).lookup k = if k = key then some value else fields.lookup k := by
  induction fields with
  | nil => exact lookup_cons_if key []
  | cons first rest ih =>
    rw [setField]
    split
    · next hname =>
      subst hname
      rw [lookup_cons_if, lookup_cons_if]
      split <;> rfl
    · next hname =>
      rw [lookup_cons_if, lookup_cons_if, ih]
      split
      · next hk => rw [if_neg (hk ▸ hname)]
      · rfl

variable {section_ section' : Fields} {ops : List PathOp}

end CocoHarness.Settings
