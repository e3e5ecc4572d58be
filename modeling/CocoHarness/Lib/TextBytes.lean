/-
# CocoHarness.Lib.TextBytes — the UTF-8 size of a text of UTF-16 units.

`Buffer.byteLength(text, 'utf8')` encodes code point by code point: a pair takes four bytes, a unit by
itself one, two or three, a lone surrogate the three of the replacement character.  Where no pair is
cut the size of a concatenation is the sum of the sizes (`byteLength_append`).
-/
import CocoHarness.Lib.CodePoints

namespace CocoHarness.Lib.Utf16

def pointBytes : List Unit16 → Nat
  | [u] => if u.toNat < 0x80 then 1 else if u.toNat < 0x800 then 2 else 3
  | _ => 4

def byteLength (t : List Unit16) : Nat := ((points t).map pointBytes).sum

@[simp] theorem byteLength_nil : byteLength [] = 0 := rfl

/-- A unit that is no second half of a pair is never joined with what stands before it. -/
theorem not_splits_of_head {a : List Unit16} {v : Unit16} {b : List Unit16} (h : isLow v = false) :
    ¬ Splits a (v :: b) := by
  rintro ⟨u, w, -, hw, -, hlow⟩
  rw [← Option.some.inj (hw : some v = some w), h] at hlow
  cases hlow

theorem byteLength_append {a b : List Unit16} (h : ¬ Splits a b) :
    byteLength (a ++ b) = byteLength a + byteLength b := by
  simp only [byteLength, points_append h, List.map_append, List.sum_append]

end CocoHarness.Lib.Utf16
