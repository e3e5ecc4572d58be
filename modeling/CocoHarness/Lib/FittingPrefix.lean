/-
# CocoHarness.Lib.FittingPrefix — the longest prefix within a budget.

`fitting` is that prefix, by its length (`fitLength`).  A scan that takes items one by one until the first that no
longer fits builds exactly it (`fitting_snoc`): once an item was refused, nothing behind it fits either.
-/
import Mathlib.Data.List.Induction
import Mathlib.Data.Nat.Find

namespace CocoHarness.Lib.FittingPrefix

open List

universe u

variable {α : Type u} (cost : List α → Nat) (budget : Nat)

def fitLength (xs : List α) : Nat := Nat.findGreatest (fun n => cost (xs.take n) ≤ budget) xs.length

/-- **The longest prefix within the budget.** -/
def fitting (xs : List α) : List α := xs.take (fitLength cost budget xs)

variable {cost} {budget}

def Grows (cost : List α → Nat) : Prop := ∀ xs x, cost xs ≤ cost (xs ++ [x])

theorem Grows.append (h : Grows cost) (xs ys : List α) : cost xs ≤ cost (xs ++ ys) := by
  induction ys using List.reverseRecOn with
  | nil => rw [append_nil]
  | append_singleton ys y ih =>
    rw [← append_assoc]
    exact le_trans ih (h _ y)

theorem Grows.take (h : Grows cost) (xs : List α) {m n : Nat} (hmn : m ≤ n) : cost (xs.take m) ≤ cost (xs.take n) := by
  have hsplit : xs.take n = xs.take m ++ (xs.take n).drop m := by
    rw [show xs.take m = (xs.take n).take m by rw [take_take, Nat.min_eq_left hmn], take_append_drop]
  rw [hsplit]
  exact h.append _ _

theorem fitLength_le (xs : List α) : fitLength cost budget xs ≤ xs.length := Nat.findGreatest_le _

@[simp] theorem length_fitting (xs : List α) :
    (fitting cost budget xs).length = fitLength cost budget xs := by
  rw [fitting, length_take, Nat.min_eq_left (fitLength_le xs)]

/-- A prefix is within the budget exactly when it is no longer than the longest one that is. -/
theorem Grows.le_fitLength_iff (h : Grows cost) (h0 : cost [] ≤ budget) {xs : List α} {n : Nat}
    (hn : n ≤ xs.length) : n ≤ fitLength cost budget xs ↔ cost (xs.take n) ≤ budget := by
  constructor
  · intro hle
    have hspec : cost (xs.take (fitLength cost budget xs)) ≤ budget :=
      Nat.findGreatest_spec (P := fun n => cost (xs.take n) ≤ budget) (Nat.zero_le _)
        (by simpa using h0)
    exact le_trans (h.take xs hle) hspec
  · intro hcost
    exact Nat.le_findGreatest hn hcost

/-- **One item more.**  It joins the prefix when all before it did and it still fits. -/
theorem Grows.fitting_snoc (h : Grows cost) (h0 : cost [] ≤ budget) (xs : List α) (x : α) :
    fitting cost budget (xs ++ [x]) =
      if fitLength cost budget xs = xs.length ∧ cost (xs ++ [x]) ≤ budget then xs ++ [x]
      else fitting cost budget xs := by
  split
  · next hfit =>
    obtain ⟨-, hcost⟩ := hfit
    have hle : (xs ++ [x]).length ≤ fitLength cost budget (xs ++ [x]) := by
      apply (h.le_fitLength_iff h0 le_rfl).mpr
      rw [take_length]
      exact hcost
    rw [fitting, take_of_length_le hle]
  · next hrefused =>
    -- the last place is out of reach, so both scans look at the same prefixes
    have hshort : fitLength cost budget (xs ++ [x]) ≤ xs.length := by
      by_contra hlong
      have hfull : (xs ++ [x]).length ≤ fitLength cost budget (xs ++ [x]) := by
        rw [length_append, length_singleton]; omega
      have hcost := (h.le_fitLength_iff h0 le_rfl).mp hfull
      rw [take_length] at hcost
      apply hrefused
      refine ⟨le_antisymm (fitLength_le xs) ((h.le_fitLength_iff h0 le_rfl).mpr ?_), hcost⟩
      rw [take_length]
      exact le_trans (h xs x) hcost
    have hsame : fitLength cost budget (xs ++ [x]) = fitLength cost budget xs := by
      apply le_antisymm
      · apply (h.le_fitLength_iff h0 hshort).mpr
        rw [← @List.take_append_of_le_length _ xs [x] _ hshort]
        refine (h.le_fitLength_iff h0 ?_).mp le_rfl
        exact fitLength_le _
      · have hle : fitLength cost budget xs ≤ xs.length := fitLength_le xs
        refine (h.le_fitLength_iff h0 (le_trans hle (by simp))).mpr ?_
        rw [take_append_of_le_length hle]
        exact (h.le_fitLength_iff h0 hle).mp le_rfl
    rw [fitting, fitting, hsame, take_append_of_le_length (fitLength_le xs)]

end CocoHarness.Lib.FittingPrefix
