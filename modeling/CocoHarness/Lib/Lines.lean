/-
# CocoHarness.Lib.Lines — texts made of terminated lines.

A line-based log is the concatenation of its lines, each closed by a separator its content never holds.  `cut` reads
it back: the complete lines and the unfinished rest.
-/
import Mathlib.Algebra.Ring.Nat
import Mathlib.Data.List.Basic

namespace CocoHarness.Lib.Lines

open List

universe u

variable {α : Type u}

/-! ## Terminated lines -/

section

variable (sep : α)

def terminate (line : List α) : List α := line ++ [sep]

def join (lines : List (List α)) : List α := lines.flatMap (terminate sep)

def within : Nat → List (List α) → List (List α)
  | _, [] => []
  | n, line :: lines => if line.length + 1 ≤ n then line :: within (n - (line.length + 1)) lines else []

end

variable {sep : α}

@[simp] theorem join_nil : join sep [] = [] := rfl

@[simp] theorem join_cons (line : List α) (lines : List (List α)) :
    join sep (line :: lines) = line ++ sep :: join sep lines := by
  simp [join, terminate]

theorem join_append (xs ys : List (List α)) : join sep (xs ++ ys) = join sep xs ++ join sep ys := flatMap_append

theorem intercalate_append_self (sep : List α) {xs : List (List α)} (h : xs ≠ []) :
    List.intercalate sep xs ++ sep = xs.flatMap (· ++ sep) := by
  induction xs with
  | nil => exact absurd rfl h
  | cons x xs ih =>
    cases xs with
    | nil => simp [List.intercalate]
    | cons y ys =>
      rw [intercalate_cons_cons, append_assoc, ih (by simp), flatMap_cons]
      simp

/-! ## Prefixes -/

theorem within_isPrefix (n : Nat) (lines : List (List α)) : within n lines <+: lines := by
  induction lines generalizing n with
  | nil => exact prefix_rfl
  | cons line lines ih =>
    rw [within]
    split
    · exact cons_prefix_cons.mpr ⟨rfl, ih _⟩
    · exact nil_prefix

variable {lines : List (List α)}

/-- The first places of a text are the lines that end within them and a fragment of the next line. -/
theorem take_join (n : Nat) (h : ∀ line ∈ lines, sep ∉ line) :
    ∃ rest, (join sep lines).take n = join sep (within n lines) ++ rest ∧ sep ∉ rest := by
  induction lines generalizing n with
  | nil => exact ⟨[], by simp [within], by simp⟩
  | cons line lines ih =>
    rw [within]
    split
    · next hle =>
      obtain ⟨rest, htake, hrest⟩ := ih (n - (line.length + 1)) fun l hl => h l (by simp [hl])
      refine ⟨rest, ?_, hrest⟩
      rw [join_cons, take_append, take_of_length_le (by omega),
        show n - line.length = n - (line.length + 1) + 1 by omega, take_succ_cons, htake,
        join_cons, append_assoc, cons_append]
    · next hgt =>
      refine ⟨line.take n, ?_, fun hmem => h line (by simp) (mem_of_mem_take hmem)⟩
      rw [join_cons, take_append_of_le_length (by omega), join_nil, nil_append]

theorem join_within_length_le (n : Nat) (lines : List (List α)) : (join sep (within n lines)).length ≤ n := by
  induction lines generalizing n with
  | nil => simp [within]
  | cons line lines ih =>
    rw [within]
    split
    · next hle =>
      have := ih (n - (line.length + 1))
      rw [join_cons, length_append, length_cons]
      omega
    · simp

theorem lt_join_take_succ (n : Nat) (h : (within n lines).length < lines.length) :
    n < (join sep (lines.take ((within n lines).length + 1))).length := by
  induction lines generalizing n with
  | nil => simp [within] at h
  | cons line lines ih =>
    rw [within] at h ⊢
    split at h
    · next hle =>
      rw [if_pos hle]
      rw [length_cons, length_cons, Nat.add_lt_add_iff_right] at h
      have := ih (n - (line.length + 1)) h
      rw [length_cons, take_succ_cons, join_cons, length_append, length_cons]
      omega
    · next hgt =>
      rw [if_neg hgt]
      simp only [length_nil, Nat.zero_add, take_succ_cons, take_zero, join_cons, join_nil, length_append, length_cons]
      omega

/-! ## Cutting -/

variable [DecidableEq α]

section

variable (sep)

/-- The complete lines, without their separators, and the unfinished rest. -/
def cut : List α → List (List α) × List α
  | [] => ([], [])
  | b :: bs =>
    if b = sep then ([] :: (cut bs).1, (cut bs).2)
    else
      match (cut bs).1 with
      | [] => ([], b :: (cut bs).2)
      | line :: lines => ((b :: line) :: lines, (cut bs).2)

def first? (bs : List α) : Option (List α × List α) :=
  if sep ∈ bs then some (bs.takeWhile (· ≠ sep), (bs.dropWhile (· ≠ sep)).tail) else none

end

variable {rest : List α}

theorem first?_line {line : List α} (h : sep ∉ line) : first? sep (line ++ sep :: rest) = some (line, rest) := by
  have hne : ∀ b ∈ line, decide (b ≠ sep) = true := fun b hb => decide_eq_true fun heq => h (heq ▸ hb)
  have htake : (line ++ sep :: rest).takeWhile (· ≠ sep) = line := by
    rw [takeWhile_append_of_pos hne, takeWhile_cons_of_neg (by simp), append_nil]
  have hdrop : (line ++ sep :: rest).dropWhile (· ≠ sep) = sep :: rest := by
    rw [dropWhile_append_of_pos hne, dropWhile_cons_of_neg (by simp)]
  rw [first?, if_pos (by simp), htake, hdrop, tail_cons]

theorem cut_rest (h : sep ∉ rest) : cut sep rest = ([], rest) := by
  induction rest with
  | nil => rfl
  | cons b bs ih =>
    obtain ⟨hb, hbs⟩ := ne_and_not_mem_of_not_mem_cons h
    simp [cut, ih hbs, hb.symm]

theorem cut_line {line : List α} (h : sep ∉ line) :
    cut sep (line ++ sep :: rest) = (line :: (cut sep rest).1, (cut sep rest).2) := by
  induction line with
  | nil => simp [cut]
  | cons b bs ih =>
    obtain ⟨hb, hbs⟩ := ne_and_not_mem_of_not_mem_cons h
    simp [cut, ih hbs, hb.symm]

/-- A text cut in two cuts into the lines of both, the first rest beginning the first line of the second. -/
theorem cut_append (as bs : List α) : cut sep (as ++ bs) =
      match (cut sep bs).1 with
      | [] => ((cut sep as).1, (cut sep as).2 ++ (cut sep bs).2)
      | line :: lines => ((cut sep as).1 ++ ((cut sep as).2 ++ line) :: lines, (cut sep bs).2) := by
  induction as with
  | nil =>
    rcases hcut : cut sep bs with ⟨lines, rest⟩
    cases lines <;> simp [cut, hcut]
  | cons a as ih =>
    rw [cons_append, cut, cut, ih]
    rcases cut sep as with ⟨lines, rest⟩
    rcases cut sep bs with ⟨lines', rest'⟩
    by_cases ha : a = sep
    · cases lines' <;> simp [ha]
    · cases lines' <;> cases lines <;> simp [ha]

theorem length_cut (bs : List α) :
    bs.length = ((cut sep bs).1.map fun line => line.length + 1).sum + (cut sep bs).2.length := by
  induction bs with
  | nil => rfl
  | cons b bs ih =>
    rw [cut, length_cons, ih]
    split
    · simp only [map_cons, length_nil, sum_cons]
      omega
    · cases (cut sep bs).1 with
      | nil => simp only [map_nil, sum_nil, length_cons]; omega
      | cons line lines => simp only [map_cons, sum_cons, length_cons]; omega

theorem cut_join (hlines : ∀ line ∈ lines, sep ∉ line) (hrest : sep ∉ rest) :
    cut sep (join sep lines ++ rest) = (lines, rest) := by
  induction lines with
  | nil => exact cut_rest hrest
  | cons line lines ih =>
    rw [join_cons, append_assoc, cons_append, cut_line (hlines line (by simp)), ih fun l hl => hlines l (by simp [hl])]

end CocoHarness.Lib.Lines
