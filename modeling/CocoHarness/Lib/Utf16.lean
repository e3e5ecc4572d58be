/-
# CocoHarness.Lib.Utf16 — texts as sequences of UTF-16 code units.

A JavaScript string is any sequence of 16-bit units, lone surrogates included.  `escapeUnit` is the four-digit
hexadecimal escape of one unit behind a marker, and `escape` writes a text unit by unit, literally where a unit is
plain and escaped elsewhere.
-/
import Mathlib.Data.List.Basic
import Mathlib.Tactic.IntervalCases

namespace CocoHarness.Lib.Utf16

open List Nat

abbrev Unit16 := UInt16

def unit (c : Char) : Unit16 := UInt16.ofNat c.toNat

def text (s : String) : List Unit16 := s.toList.map unit

/-! ## Four hexadecimal digits -/

def hex4 (code : Unit16) : List Unit16 :=
  ((Nat.toDigits 16 code.toNat).map fun c => unit c.toUpper).leftpad 4 (unit '0')

def hexUnit (d : Nat) : Unit16 := unit d.digitChar.toUpper

def hexValue (u : Unit16) : Nat := if u.toNat ≤ 57 then u.toNat - 48 else u.toNat - 55

theorem hexValue_hexUnit {d : Nat} (h : d < 16) : hexValue (hexUnit d) = d := by interval_cases d <;> rfl

/-- The digits of a number below the fourth power of the base, from the most significant one. -/
theorem hex4_eq (code : Unit16) : hex4 code = [hexUnit (code.toNat / 4096), hexUnit (code.toNat / 256 % 16),
      hexUnit (code.toNat / 16 % 16), hexUnit (code.toNat % 16)] := by
  have hlt : code.toNat < 65536 := code.toNat_lt
  generalize hn : code.toNat = n at hlt
  rw [hex4, hn]
  rcases lt_or_ge n 16 with h1 | h1
  · -- one digit, three of padding
    rw [toDigits_of_lt_base h1]
    simp only [div_eq_of_lt (show n < 4096 by omega), div_eq_of_lt (show n < 256 by omega),
      div_eq_of_lt h1, mod_eq_of_lt h1]
    rfl
  · have hq : n / 16 / 16 = n / 256 := by omega
    have hq' : n / 16 / 16 / 16 = n / 4096 := by omega
    rw [toDigits_of_base_le (by omega) h1]
    rcases lt_or_ge n 256 with h2 | h2
    · rw [toDigits_of_lt_base (show n / 16 < 16 by omega)]
      simp only [div_eq_of_lt (show n < 4096 by omega), div_eq_of_lt h2,
        mod_eq_of_lt (show n / 16 < 16 by omega)]
      rfl
    · rw [toDigits_of_base_le (by omega) (show 16 ≤ n / 16 by omega)]
      rcases lt_or_ge n 4096 with h3 | h3
      · rw [toDigits_of_lt_base (show n / 16 / 16 < 16 by omega), hq]
        simp only [div_eq_of_lt h3, mod_eq_of_lt (show n / 256 < 16 by omega)]
        rfl
      · rw [toDigits_of_base_le (by omega) (show 16 ≤ n / 16 / 16 by omega),
          toDigits_of_lt_base (show n / 16 / 16 / 16 < 16 by omega), hq', hq]
        rfl

/-! ## Escaping a text -/

section

variable (marker : Unit16) (plain : Unit16 → Bool)

def escapeUnit (code : Unit16) : List Unit16 := marker :: hex4 code

def escape (raw : List Unit16) : List Unit16 :=
  raw.flatMap fun code => if plain code then [code] else escapeUnit marker code

def unescape : List Unit16 → List Unit16
  | a :: b :: c :: d :: e :: rest =>
    if a = marker then
      UInt16.ofNat (hexValue b * 4096 + hexValue c * 256 + hexValue d * 16 + hexValue e) :: unescape rest
    else a :: unescape (b :: c :: d :: e :: rest)
  | other => other

end

variable {marker : Unit16} {plain : Unit16 → Bool}

theorem escape_nil : escape marker plain [] = [] := rfl

theorem escape_cons (code : Unit16) (raw : List Unit16) : escape marker plain (code :: raw)
      = (if plain code then [code] else escapeUnit marker code) ++ escape marker plain raw :=
  flatMap_cons ..

theorem unescape_cons_of_ne {code : Unit16} (h : code ≠ marker) (rest : List Unit16) :
    unescape marker (code :: rest) = code :: unescape marker rest := by
  match rest with
  | b :: c :: d :: e :: tail => rw [unescape, if_neg h]
  | [] | [_] | [_, _] | [_, _, _] => simp [unescape]

theorem unescape_escapeUnit (code : Unit16) (rest : List Unit16) :
    unescape marker (escapeUnit marker code ++ rest) = code :: unescape marker rest := by
  have hlt : code.toNat < 65536 := code.toNat_lt
  rw [escapeUnit, hex4_eq]
  simp only [cons_append, nil_append]
  rw [unescape, if_pos rfl, hexValue_hexUnit (by omega), hexValue_hexUnit (by omega),
    hexValue_hexUnit (by omega), hexValue_hexUnit (by omega)]
  have hsum : code.toNat / 4096 * 4096 + code.toNat / 256 % 16 * 256 + code.toNat / 16 % 16 * 16
      + code.toNat % 16 = code.toNat := by omega
  rw [hsum, UInt16.ofNat_toNat]

/-- **An escape reads back**, whatever the text, when the marker itself is escaped. -/
theorem unescape_escape (h : plain marker = false) (raw : List Unit16) :
    unescape marker (escape marker plain raw) = raw := by
  induction raw with
  | nil => simp [escape_nil, unescape]
  | cons code raw ih =>
    rw [escape_cons]
    split
    · next hplain =>
      have hne : code ≠ marker := by
        rintro rfl
        rw [h] at hplain
        cases hplain
      rw [singleton_append, unescape_cons_of_ne hne, ih]
    · rw [unescape_escapeUnit, ih]

theorem unescape_all (raw : List Unit16) : unescape marker (escape marker (fun _ => false) raw) = raw :=
  unescape_escape rfl raw

theorem mem_escape {u : Unit16} {raw : List Unit16} (h : u ∈ escape marker plain raw) :
    plain u = true ∨ u = marker ∨ ∃ d, d < 16 ∧ u = hexUnit d := by
  obtain ⟨code, -, hu⟩ := mem_flatMap.mp h
  split at hu
  · next hplain =>
    rw [mem_singleton] at hu
    exact .inl (hu ▸ hplain)
  · have hlt : code.toNat < 65536 := code.toNat_lt
    rw [escapeUnit, hex4_eq] at hu
    simp only [mem_cons, not_mem_nil, or_false] at hu
    rcases hu with hu | hu | hu | hu | hu
    · exact .inr (.inl hu)
    · exact .inr (.inr ⟨_, by omega, hu⟩)
    · exact .inr (.inr ⟨_, by omega, hu⟩)
    · exact .inr (.inr ⟨_, by omega, hu⟩)
    · exact .inr (.inr ⟨_, by omega, hu⟩)

end CocoHarness.Lib.Utf16
