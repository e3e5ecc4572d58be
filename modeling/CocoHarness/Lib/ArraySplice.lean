/-
# CocoHarness.Lib.ArraySplice — `Array.prototype.splice` on any numbers.

The start and the delete count of a splice may be any numbers: `ToIntegerOrInfinity` makes an integer or an infinity
of each, a negative start counts from the end, and both are clamped to the array.
-/
import Mathlib.Algebra.Ring.Int.Defs
import Mathlib.Algebra.Ring.Nat
import CocoHarness.Lib.Json

namespace CocoHarness.Lib

universe u

/-! ## Numbers -/

/-- A number of the language: those JSON carries, and those it does not. -/
inductive JsNumber where
  | nan
  | infinity (negative : Bool)
  | negZero
  | finite (n : Number)
  deriving DecidableEq

def Number.integral : Number → Int
  | .int n => n
  | .frac m p _ => m.tdiv (10 ^ (p + 1))

inductive IntegerOrInfinity where
  | negInf
  | int (n : Int)
  | posInf

namespace JsNumber

def toIntegerOrInfinity : JsNumber → IntegerOrInfinity
  | .nan | .negZero => .int 0
  | .infinity true => .negInf
  | .infinity false => .posInf
  | .finite n => .int n.integral

def leNat (n : JsNumber) (count : Nat) : Bool :=
  match n with
  | .nan => false
  | .infinity negative => negative
  | .negZero => true
  | .finite (.int m) => decide (m ≤ count)
  | .finite (.frac m p _) => decide (m ≤ count * 10 ^ (p + 1))

theorem leNat_mono {n : JsNumber} {count count' : Nat} (h : n.leNat count = true) (hle : count ≤ count') :
    n.leNat count' = true := by
  cases n with
  | nan => cases h
  | infinity negative => exact h
  | negZero => rfl
  | finite m =>
    cases m with
    | int m =>
      simp only [leNat, decide_eq_true_eq] at h ⊢
      omega
    | frac m p _ =>
      simp only [leNat, decide_eq_true_eq] at h ⊢
      have hmul : (count * 10 ^ (p + 1) : Int) ≤ count' * 10 ^ (p + 1) := by
        exact_mod_cast Nat.mul_le_mul_right _ hle
      omega

end JsNumber

namespace IntegerOrInfinity

/-- A relative index clamped to an array: negative ones count from the end. -/
def relativeIndex (length : Nat) : IntegerOrInfinity → Nat
  | .negInf => 0
  | .posInf => length
  | .int n => if n < 0 then (length + n).toNat else min n.toNat length

def clampCount (room : Nat) : IntegerOrInfinity → Nat
  | .negInf => 0
  | .posInf => room
  | .int n => min n.toNat room

end IntegerOrInfinity

/-! ## Splicing -/

variable {α : Type u}

/-- Cut `count` elements at `position` out and put `items` in their place. -/
def cut (xs : List α) (position count : Nat) (items : List α) : List α × List α :=
  ((xs.drop position).take count, xs.take position ++ items ++ xs.drop (position + count))

/-- `Array.prototype.splice`: what it returns, and the array it leaves. -/
def arraySplice (xs : List α) (start deleteCount : JsNumber) (items : List α) : List α × List α :=
  let position := start.toIntegerOrInfinity.relativeIndex xs.length
  cut xs position (deleteCount.toIntegerOrInfinity.clampCount (xs.length - position)) items

@[simp] theorem cut_nothing (xs : List α) (position : Nat) : cut xs position 0 [] = ([], xs) := by simp [cut]

theorem map_cut {β : Type*} (f : α → β) (xs : List α) (position count : Nat) (items : List α) :
    cut (xs.map f) position count (items.map f)
      = ((cut xs position count items).1.map f, (cut xs position count items).2.map f) := by
  simp [cut, List.map_take, List.map_drop]

end CocoHarness.Lib
