/-
# CocoHarness.Lib.WhiteSpace — what `String.prototype.trim` takes off.
-/
import CocoHarness.Lib.Utf16

namespace CocoHarness.Lib.Utf16

def isSpace (u : Unit16) : Bool :=
  decide (9 ≤ u.toNat ∧ u.toNat ≤ 13 ∨ u.toNat = 0x20 ∨ u.toNat = 0xA0 ∨ u.toNat = 0x1680
    ∨ 0x2000 ≤ u.toNat ∧ u.toNat ≤ 0x200A ∨ u.toNat = 0x2028 ∨ u.toNat = 0x2029 ∨ u.toNat = 0x202F
    ∨ u.toNat = 0x205F ∨ u.toNat = 0x3000 ∨ u.toNat = 0xFEFF)

def trim (t : List Unit16) : List Unit16 := ((t.dropWhile isSpace).reverse.dropWhile isSpace).reverse

end CocoHarness.Lib.Utf16
