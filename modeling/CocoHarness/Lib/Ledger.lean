/-
# CocoHarness.Lib.Ledger — an ordered list whose runs are rewritten.

An entry either joins the end of the live list or takes the place of a contiguous run of it; the run is then retired,
on record with the entry that replaced it.  Rewrites may cover earlier rewrites to any depth, and still nothing is
lost or doubled: the live entries and the retired runs together are a permutation of what was admitted (`Run.perm`),
so every admitted entry is live once or retired once (`Run.accounted`).
-/
import Mathlib.Data.List.Perm.Basic
import Mathlib.Data.List.Nodup
import Mathlib.Data.List.Count
import Mathlib.Order.Basic

namespace CocoHarness.Lib

open List

/-- The live entries in order, and every rewrite with the run it retired. -/
@[ext]
structure Ledger (α : Type*) where
  live : List α := []
  retired : List (α × List α) := []

namespace Ledger

variable {α : Type*}

inductive Step (l : Ledger α) (x : α) : Ledger α → Prop
  /-- The entry joins the end. -/
  | enter : Step l x { live := l.live ++ [x], retired := l.retired }
  /-- The entry takes the place of a contiguous run. -/
  | rewrite {left run right : List α} (hlive : l.live = left ++ run ++ right) (hrun : run ≠ []) :
      Step l x { live := left ++ x :: right, retired := l.retired ++ [(x, run)] }

/-- A whole history: the admitted entries in order, and the ledger they lead to. -/
inductive Run : List α → Ledger α → Prop
  | nil : Run [] {}
  | snoc {xs : List α} {l l' : Ledger α} {x : α} : Run xs l → Step l x l' → Run (xs ++ [x]) l'

def entries (l : Ledger α) : List α := l.live ++ l.retired.flatMap Prod.snd

variable {l : Ledger α}

theorem Step.entries_perm {l' : Ledger α} {x : α} (h : Step l x l') : l'.entries.Perm (l.entries ++ [x]) := by
  cases h with
  | enter =>
    simp only [entries, append_assoc]
    exact perm_append_comm.append_left _
  | @rewrite left run right hlive _ =>
    simp only [entries, hlive, flatMap_append, flatMap_cons, flatMap_nil, append_nil]
    classical
    rw [perm_iff_count]
    intro y
    simp only [count_append, count_cons, count_nil]
    omega

variable {xs : List α}

/-- **Conservation.** Live and retired entries together are what was admitted. -/
theorem Run.perm (h : Run xs l) : l.entries.Perm xs := by
  induction h with
  | nil => exact .nil
  | snoc _ hstep ih => exact hstep.entries_perm.trans (ih.append_right _)

theorem Run.live_subset (h : Run xs l) : l.live ⊆ xs := fun _ hx => h.perm.mem_iff.mp (mem_append_left _ hx)

theorem Run.live_nodup (h : Run xs l) (hxs : xs.Nodup) : l.live.Nodup :=
  (nodup_append.mp (h.perm.nodup_iff.mpr hxs)).1

theorem filter_of_count_flatMap [DecidableEq α] {ps : List (α × List α)} {x : α}
    (h : (ps.flatMap Prod.snd).count x = 1) :
    ∃ p, ps.filter (fun p => x ∈ p.2) = [p] ∧ p.2.count x = 1 := by
  induction ps with
  | nil => simp at h
  | cons p ps ih =>
    rw [flatMap_cons, count_append] at h
    by_cases hp : x ∈ p.2
    · have hpos : 0 < p.2.count x := count_pos_iff.mpr hp
      have hrest : x ∉ ps.flatMap Prod.snd := count_eq_zero.mp (by omega)
      refine ⟨p, ?_, by omega⟩
      rw [filter_cons_of_pos (by simpa using hp), filter_eq_nil_iff.mpr]
      intro q hq hx
      exact hrest (mem_flatMap.mpr ⟨q, hq, by simpa using hx⟩)
    · have hzero : p.2.count x = 0 := count_eq_zero.mpr hp
      rw [filter_cons_of_neg (by simpa using hp)]
      exact ih (by omega)

/-- With distinct admissions, every entry is live once or retired once. -/
theorem Run.accounted [DecidableEq α] (h : Run xs l) (hxs : xs.Nodup) {x : α} (hx : x ∈ xs) :
    (l.live.count x = 1 ∧ ∀ p ∈ l.retired, x ∉ p.2) ∨
      (x ∉ l.live ∧ ∃ p, l.retired.filter (fun p => x ∈ p.2) = [p] ∧ p.2.count x = 1) := by
  have hcount : l.live.count x + (l.retired.flatMap Prod.snd).count x = 1 := by
    rw [← count_append, ← count_eq_one_of_mem hxs hx]
    exact h.perm.count_eq x
  by_cases hlive : x ∈ l.live
  · have hpos : 0 < l.live.count x := count_pos_iff.mpr hlive
    have hretired : x ∉ l.retired.flatMap Prod.snd := count_eq_zero.mp (by omega)
    exact .inl ⟨by omega, fun p hp hxp => hretired (mem_flatMap.mpr ⟨p, hp, hxp⟩)⟩
  · have hzero : l.live.count x = 0 := count_eq_zero.mpr hlive
    exact .inr ⟨hlive, filter_of_count_flatMap (by omega)⟩

theorem Run.retired_lt [Preorder α] (h : Run xs l) (hxs : xs.Pairwise (· < ·)) :
    ∀ p ∈ l.retired, ∀ x ∈ p.2, x < p.1 := by
  induction h with
  | nil => simp
  | @snoc xs l l' y hrun hstep ih =>
    obtain ⟨hpair, -, hlast⟩ := pairwise_append.mp hxs
    cases hstep with
    | enter => exact ih hpair
    | @rewrite left run right hlive _ =>
      intro p hp x hx
      rcases mem_append.mp hp with hp | hp
      · exact ih hpair p hp x hx
      · rw [mem_singleton.mp hp] at hx ⊢
        have hmem : x ∈ l.live := by rw [hlive]; simp [hx]
        exact hlast x (hrun.live_subset hmem) y (by simp)

end Ledger

end CocoHarness.Lib
